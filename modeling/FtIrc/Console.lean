import FtIrc.Lib.Replace
import FtIrc.Progress

/-!
# What the server writes to the console

`withoutRN`, `infoCmd` and `infoServ` of `utils.cpp`, and where `run` writes what they return (`printed`).  They look
at the same objects as the commands; in a reachable state all of these are there, so that writing never stops the
server, and what `recv` and `send` write about their bytes is one line (`printed_ok`).  The others write the words of a
command and the strings of the records as they are, with an LF that a client has put there.
-/

namespace FtIrc

open Std Outcome Server Replace

variable {s : Server} {c : Cli} {fd lfd : Nat} {k pass : Str} {ch : Ch} {ar : List Str} {cfg cfg' : Config} {i : Input}

/-! ## The texts -/

/-- `withoutRN`. -/
def withoutRN (s : Str) : Str := replaceAll LF (str "\\n") (replaceAll CR (str "\\r") s)

/-- Decimal digits, as an `ostringstream` writes them. -/
def decimal (n : Nat) : Str :=
  if n = 0 then [48] else (Nat.digits 10 n).reverse.map fun d => UInt8.ofNat (48 + d)

/-- `infoCmd`. -/
def infoCmd (ar : List Str) : Str :=
  if ar.length = 0 ∨ ar.head? = some (str "PING") then []
  else ar.foldl (fun ret a => ret ++ (str "[" ++ a ++ str "] ")) (str "I execute                 : ") ++ str "\n"

namespace Server

/-- The line of `infoServ` about a client. -/
def infoCli (c : Cli) : Str :=
  str "My client                 : nick = " ++ c.nick ++ str ", bufR = [" ++ c.bufRecv ++ str "], rName = [" ++
    c.rName ++ str "], uName = " ++ c.uName ++ str ", passOk = " ++ (if c.passOk then str "T" else str "F") ++ str "\n"

/-- The loop of `infoServ` over the channels. -/
def infoChs (s : Server) : List (Str × Ch) → Str → Except Fault Str
  | [], ret => .ok ret
  | e :: es, ret => do
    let ch ← s.derefCh (some e.1)
    let m ← s.mode (some e.1)
    infoChs s es (ret ++ (str "My channel                : name = " ++ e.1 ++ str ", topic = " ++ ch.topic ++
      str ", pass = " ++ ch.pass ++ str ", limit = " ++ decimal ch.limit ++ str ", mode = " ++ m ++ str "\n"))

/-- `infoServ`; `ar` is the last command that has been executed. -/
def infoServ (s : Server) (ar : List Str) : Except Fault Str :=
  if ar.length = 0 ∨ ar.head? = some (str "PING") then .ok []
  else do
    let ret ← s.infoChs s.chs.toList (s.clis.toList.foldl (fun ret e => ret ++ infoCli e.2) [])
    .ok (s.polls.foldl (fun ret p => ret ++ (decimal p.fd ++ str " ")) (ret ++ str "My polls                  : ") ++
      str "\n")

end Server

/-- What a transition writes to the console. -/
def printed (cfg : Config) (ar : List Str) (i : Input) : Except Fault Str :=
  match cfg.phase, i with
  | .events _, .accept (some conn) => .ok (str "\n*** New cli (fd=" ++ decimal conn.fd ++ str ")\n")
  | .events ((fd, _) :: _), .recv (.data buf) => do
    let cli ← cfg.srv.cliOfFd fd
    let c ← cfg.srv.deref cli
    if buf.take 4 = str "PING" then .ok []
    else .ok (str "\n" ++ withoutRN (str "I have received from " ++ decimal c.fd ++ str " buf: [" ++ buf ++
      str "] -> [" ++ c.bufRecv ++ buf ++ str "]") ++ str "\n")
  | .events ((fd, _) :: _), .send _ => do
    let cli ← cfg.srv.cliOfFd fd
    let c ← cfg.srv.deref cli
    if c.bufToSend.take 4 = str "PONG" then .ok []
    else .ok (str "I send buf to fd=" ++ decimal c.fd ++ str "        : [" ++ withoutRN c.bufToSend ++ str "]\n")
  | .cmds _ (line :: _) _, .next => .ok (infoCmd (splitCmdToArgs line))
  | .cmds _ [] _, .next => cfg.srv.infoServ ar
  | _, _ => .ok []

/-! ## One line -/

theorem withoutRN_free (s : Str) : CR ∉ withoutRN s ∧ LF ∉ withoutRN s := by
  have hr : CR ∉ str "\\r" := by decide
  have hn : LF ∉ str "\\n" := by decide
  refine ⟨fun h => ?_, not_mem_replaceAll hn _⟩
  rcases mem_replaceAll hn h with h | h
  · exact not_mem_replaceAll hr s h
  · exact absurd h (by decide)

/-- **Each byte is shown in its place.** -/
theorem withoutRN_eq (s : Str) : withoutRN s =
    s.flatMap fun b => if b = CR then str "\\r" else if b = LF then str "\\n" else [b] := by
  have hr : CR ∉ str "\\r" := by decide
  have hn : LF ∉ str "\\n" := by decide
  unfold withoutRN
  rw [replaceAll_eq hn, replaceAll_eq hr, List.flatMap_assoc]
  refine List.flatMap_congr fun b _ => ?_
  unfold subst
  split
  · decide
  · rw [List.flatMap_singleton]

/-! ## The state of the server -/

theorem infoChs_ok (hI : Inv s) : ∀ (es : List (Str × Ch)) (ret : Str), (∀ e ∈ es, s.chs[e.1]? = some e.2) →
    ∃ text, s.infoChs es ret = .ok text
  | [], ret, _ => ⟨ret, rfl⟩
  | e :: es, ret, h => by
    have hch := h e (List.mem_cons_self ..)
    have hrest := fun ret => infoChs_ok hI es ret fun e' he => h e' (List.mem_cons_of_mem _ he)
    unfold infoChs
    rw [derefCh_some hch]
    show ∃ text, (s.mode (some e.1) >>= _) = _
    rw [mode_eq hI hch]
    exact hrest _

/-- `infoServ` finds every object that it looks at. -/
theorem infoServ_ok (hI : Inv s) (ar : List Str) : ∃ text, s.infoServ ar = .ok text := by
  unfold infoServ
  split
  · exact ⟨[], rfl⟩
  · obtain ⟨ret, hret⟩ := infoChs_ok hI s.chs.toList (s.clis.toList.foldl (fun ret e => ret ++ infoCli e.2) [])
      fun e he => ExtTreeMap.mem_toList_iff_getElem?_eq_some.mp he
    rw [hret]
    exact ⟨_, rfl⟩

/-! ## The transitions -/

/-- Nothing, or one line. -/
def OneLine (text : Str) : Prop :=
  text = [] ∨ ∃ before line, text = before ++ line ++ [LF] ∧ (before = [] ∨ before = [LF]) ∧ CR ∉ line ∧ LF ∉ line

theorem decimal_free (n : Nat) : CR ∉ decimal n ∧ LF ∉ decimal n := by
  have hdigit : ∀ b ∈ decimal n, 48 ≤ b.toNat := by
    intro b hb
    unfold decimal at hb
    split at hb
    · rw [List.mem_singleton.mp hb]
      decide
    · obtain ⟨d, hd, rfl⟩ := List.mem_map.mp hb
      have hlt := Nat.digits_lt_base (by omega) (List.mem_reverse.mp hd)
      rw [UInt8.toNat_ofNat', Nat.mod_eq_of_lt (by omega)]
      exact Nat.le_add_right 48 d
  refine ⟨fun h => ?_, fun h => ?_⟩
  · exact absurd (hdigit CR h) (by decide)
  · exact absurd (hdigit LF h) (by decide)

/-- **Writing to the console never stops the server**: in a reachable state, whatever the last command was, every
transition finds what it writes about; and what `recv` and `send` write about their bytes is nothing or one line. -/
theorem printed_ok (hr : Reachable pass lfd cfg) (h : step cfg i = .ok cfg') (ar : List Str) :
    ∃ text, printed cfg ar i = .ok text ∧ ((∃ r, i = .recv r) ∨ (∃ n, i = .send n) → OneLine text) := by
  have hI : Inv cfg.srv := hr.good.inv
  obtain ⟨s, phase⟩ := cfg
  obtain ⟨s', phase'⟩ := cfg'
  have hmove : Move s phase i s' phase' := move_of_step h
  have hfound : ∀ {fd c}, s.clis[fd]? = some c → s.cliOfFd fd = .ok c.addr ∧ s.deref c.addr = .ok c := by
    intro fd c hc
    exact ⟨cliOfFd_eq hc, deref_of_cliAt hI (cliAt_of_clis hI hc)⟩
  cases hmove with
  | accept r todo conn _ _ => exact ⟨_, rfl, by simp⟩
  | recv fd r todo c chunk s' lines _ hc _ _ =>
    obtain ⟨hx, hd⟩ := hfound hc
    show ∃ text, (s.cliOfFd fd >>= _) = _ ∧ _
    rw [hx]
    show ∃ text, (s.deref c.addr >>= _) = _ ∧ _
    rw [hd]
    show ∃ text, (if chunk.take 4 = str "PING" then _ else _) = _ ∧ _
    split
    · exact ⟨[], rfl, fun _ => .inl rfl⟩
    · exact ⟨_, rfl, fun _ => .inr ⟨[LF], _, rfl, .inr rfl, withoutRN_free _⟩⟩
  | send fd r todo c n d s' _ _ hc _ _ _ =>
    obtain ⟨hx, hd⟩ := hfound hc
    show ∃ text, (s.cliOfFd fd >>= _) = _ ∧ _
    rw [hx]
    show ∃ text, (s.deref c.addr >>= _) = _ ∧ _
    rw [hd]
    show ∃ text, (if c.bufToSend.take 4 = str "PONG" then _ else _) = _ ∧ _
    split
    · exact ⟨[], rfl, fun _ => .inl rfl⟩
    · refine ⟨_, rfl, fun _ => .inr ⟨[], str "I send buf to fd=" ++ decimal c.fd ++ str "        : [" ++
        withoutRN c.bufToSend ++ str "]", ?_, .inl rfl, ?_, ?_⟩⟩
      · exact (List.append_assoc _ (str "]") (str "\n")).symm
      · simp only [List.mem_append, not_or]
        exact ⟨⟨⟨⟨by decide, (decimal_free _).1⟩, by decide⟩, (withoutRN_free _).1⟩, by decide⟩
      · simp only [List.mem_append, not_or]
        exact ⟨⟨⟨⟨by decide, (decimal_free _).2⟩, by decide⟩, (withoutRN_free _).2⟩, by decide⟩
  | cmd x line lines todo s' _ => exact ⟨_, rfl, by simp⟩
  | done x todo =>
    obtain ⟨text, htext⟩ := infoServ_ok hI ar
    exact ⟨text, htext, by simp⟩
  | recvError | recvClosed => exact ⟨[], rfl, fun _ => .inl rfl⟩
  | _ => exact ⟨[], rfl, by simp⟩

/-- A chunk with an unfinished line. -/
theorem printed_ok_chunk : ∃ cfg cfg' text, Reachable (str "2") 3 cfg ∧
    step cfg (.recv (.data (str "NICK al\r\nUSER a"))) = .ok cfg' ∧
    printed cfg [] (.recv (.data (str "NICK al\r\nUSER a"))) = .ok text ∧ OneLine text := by
  obtain ⟨cfg, hrun, hP⟩ := exists_run (str "2") 3 (connect 0 alice ++ wait [silent, readable] ++ [.next])
    (fun cfg => (step cfg (.recv (.data (str "NICK al\r\nUSER a")))).toOption.isSome) (by decide +kernel)
  obtain ⟨cfg', hstep⟩ := Option.isSome_iff_exists.mp hP
  have hstep := eq_ok_of_toOption hstep
  obtain ⟨text, htext, hline⟩ := printed_ok ⟨_, hrun⟩ hstep []
  exact ⟨cfg, cfg', text, ⟨_, hrun⟩, hstep, htext, hline (.inl ⟨_, rfl⟩)⟩

end FtIrc
