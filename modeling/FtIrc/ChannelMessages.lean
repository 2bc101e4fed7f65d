import FtIrc.Meaning.Line
import FtIrc.Meaning.Relay
import FtIrc.Parse

/-!
# PRIVMSG to a channel

`Delivers` is what a line appends to the send buffers of the clients.  For the line that a member sends to
its channel `c`, `delivers_iff` is when that is one line for every other member and nothing for anybody
else: the name, as far as it survives `splitCmdToArgs`, has to be spelled in lower case, because
`execPrivmsg` looks it up in lower case first.
-/

namespace FtIrc

open Std Outcome Server Delimited

variable {s s' : Server} {x y : Ptr} {ar more : List Str} {c d : Cli} {k w r a2 text line : Str} {ch : Ch}
  {mail : Mail} {m : Str} {P : Ptr → Str} {cfg : Config} {pass : Str} {lfd : Nat}

/-! ## What a line appends -/

/-- The line is executed, and appends `P y` to the send buffer of each client `y`. -/
def Delivers (s : Server) (x : Ptr) (line : Str) (P : Ptr → Str) : Prop :=
  ∃ s', s.execLine x line = .ok s' ∧ ∀ y d, s.cliAt y = some d →
    ∃ d', s'.cliAt y = some d' ∧ d'.bufToSend = d.bufToSend ++ P y

theorem delivers_iff_inbox (hI : Inv s) (hc : s.cliAt x = some c) : Delivers s x line P ↔
    CmdSafe s x (splitCmdToArgs line) ∧ ∀ y d, s.cliAt y = some d →
      frames (inbox y (cmdRun s x c (splitCmdToArgs line)).2) = P y := by
  constructor
  · rintro ⟨s', hs', hall⟩
    refine ⟨(execLine_ok_iff hI hc).mp ⟨s', hs'⟩, fun y d hd => ?_⟩
    obtain ⟨d', hd', hbuf⟩ := hall y d hd
    obtain ⟨e, he, hbuf', -⟩ := execLine_inbox hI hc hs' hd
    rw [hd'] at he
    cases he
    exact List.append_cancel_left (hbuf'.symm.trans hbuf)
  · rintro ⟨hsafe, hall⟩
    obtain ⟨s', hs'⟩ := (execLine_ok_iff hI hc).mpr hsafe
    refine ⟨s', hs', fun y d hd => ?_⟩
    obtain ⟨d', hd', hbuf, -⟩ := execLine_inbox hI hc hs' hd
    exact ⟨d', hd', hbuf.trans (congrArg _ (hall y d hd))⟩

theorem frame_ne_nil : frame m ≠ [] := by simp [frame, CRLF]

theorem frames_singleton : frames [m] = m.take (MAX_CMD_LEN - 2) ++ CRLF := by
  rw [frames_cons, frames_nil, List.append_nil]
  rfl

/-- A line for each client of a list comes to each of them once. -/
theorem inbox_map_nodup : ∀ ps : List Ptr, ps.Nodup →
    inbox y (ps.map fun p => (p, m)) = if y ∈ ps then [m] else []
  | [], _ => rfl
  | p :: ps, h => by
    obtain ⟨hp, hps⟩ := List.nodup_cons.mp h
    rw [List.map_cons, inbox_cons, inbox_map_nodup ps hps]
    by_cases he : p = y
    · subst he
      rw [if_pos rfl, if_neg hp, if_pos (List.mem_cons_self ..)]
    · rw [if_neg he]
      simp only [List.mem_cons, Ne.symm he, false_or]

/-- A broadcast comes to each of the others once. -/
theorem inbox_bcast : inbox y (bcast ch m) = if y ∈ ch.clis then [m] else [] := by
  unfold bcast
  rw [inbox_map_nodup _ nodup_toList]
  simp only [ExtTreeSet.mem_toList]

theorem inbox_bcastOthers : inbox y (bcastOthers ch x m) = if y ≠ x ∧ y ∈ ch.clis then [m] else [] := by
  unfold bcastOthers
  rw [inbox_map_nodup _ (nodup_toList.filter _)]
  simp only [List.mem_filter, ExtTreeSet.mem_toList, decide_eq_true_eq, and_comm]

/-! ## One target -/

theorem tooManyTargets_one : tooManyTargets [w] = false := by
  simp [tooManyTargets, MAX_NB_TARGETS]

/-- What a `PRIVMSG` to one target comes to. -/
theorem cmdRun_privmsg_one (hreg : c.registered = true) (hcmd : CmdIs ar "PRIVMSG") (hw : ar[1]? = some w)
    (ha2 : ar[2]? = some a2) (hone : splitArgToSubargs w = [w]) :
    cmdRun s x c ar = (s, privmsgMail s x c w a2 w) := by
  have hlen := (List.getElem?_eq_some_iff.mp ha2).1
  rw [cmdRun_privmsg hcmd]
  unfold privmsgRun registeredRun
  rw [if_neg (by simp [hreg]), if_neg (by omega), if_neg (by omega), argD_of_getElem? hw, argD_of_getElem? ha2,
    hone, if_neg (by simp [tooManyTargets_one])]
  unfold privmsgMails
  rw [hone, List.flatMap_singleton]

theorem cmdSafe_privmsg_one (hc : s.cliAt x = some c) (hreg : c.registered = true) (hcmd : CmdIs ar "PRIVMSG")
    (hw : ar[1]? = some w) (ha2 : ar[2]? = some a2) (hone : splitArgToSubargs w = [w]) :
    CmdSafe s x ar ↔ (w.head? = some HASH → toLower w ∈ s.chs → w ∈ s.chs) := by
  have hlen := (List.getElem?_eq_some_iff.mp ha2).1
  rw [cmdSafe_privmsg hcmd]
  unfold PrivmsgOk
  rw [hw]
  simp only [Option.mem_def, Option.some.injEq, forall_eq', hone, tooManyTargets_one, PrivmsgSafe,
    List.mem_singleton, forall_eq, true_imp_iff]
  exact ⟨fun h => h ⟨c, hc, hreg⟩ hlen, fun h _ _ => h⟩

/-! ## The line to a channel -/

/-- The line `<cmd> <target> :<text>`. -/
def messageCmd (cmd : String) (target text : Str) : Str := str cmd ++ str " " ++ target ++ str " :" ++ text

/-- Neither a space nor a colon. -/
def inWord (b : UInt8) : Bool := b ≠ SPACE ∧ b ≠ COLON

/-- The part of a name in front of its first space or colon: what `splitCmdToArgs` takes for the name. -/
def addressee (k : Str) : Str := k.takeWhile inWord

theorem addressee_word (k : Str) : SPACE ∉ addressee k ∧ COLON ∉ addressee k := by
  have hall : ∀ b ∈ addressee k, inWord b = true := fun b hb => List.mem_takeWhile_imp hb
  exact ⟨fun h => absurd (hall _ h) (by decide), fun h => absurd (hall _ h) (by decide)⟩

theorem addressee_split (k : Str) : k = addressee k ∨ (∃ r, k = addressee k ++ SPACE :: r) ∨
    ∃ r, k = addressee k ++ COLON :: r := by
  have hk : addressee k ++ k.dropWhile inWord = k := List.takeWhile_append_dropWhile
  cases hr : k.dropWhile inWord with
  | nil =>
    rw [hr, List.append_nil] at hk
    exact .inl hk.symm
  | cons b r =>
    have hb : inWord b = false := by
      have hhead := List.head_dropWhile_not inWord (l := k) (by rw [hr]; exact List.cons_ne_nil _ _)
      simpa only [hr, List.head_cons] using hhead
    rw [hr] at hk
    unfold inWord at hb
    simp only [decide_eq_false_iff_not, not_and_or, not_not] at hb
    rcases hb with rfl | rfl
    · exact .inr (.inl ⟨r, hk.symm⟩)
    · exact .inr (.inr ⟨r, hk.symm⟩)

theorem splitCmdToArgs_three {a b c : Str} {rest : List Str} (h : rawArgs line = a :: b :: c :: rest) :
    splitCmdToArgs line = a :: b :: c :: rest.take 14 := by
  rw [splitCmdToArgs_eq, h]
  rfl

/-- The arguments of the line: the target up to its first space or colon, and what follows. -/
theorem rawArgs_target (hk : addressee k ≠ []) (ht : text ≠ []) : ∃ a2 more,
    rawArgs (k ++ SPACE :: COLON :: text) = addressee k :: a2 :: more ∧
      (k = addressee k → a2 = text) ∧ ∀ r, k = addressee k ++ SPACE :: COLON :: r → a2 = r ++ SPACE :: COLON :: text := by
  obtain ⟨hspace, hcolon⟩ := addressee_word k
  generalize hw : addressee k = w at hk hspace hcolon
  have hsplit := addressee_split k
  rw [hw] at hsplit
  rcases hsplit with rfl | ⟨r, rfl⟩ | ⟨r, rfl⟩
  · refine ⟨text, [], ?_, fun _ => rfl, fun r hr => ?_⟩
    · rw [rawArgs_word_space hk hspace hcolon, rawArgs_text ht]
    · exact absurd hr (by simp)
  · -- the name goes on behind a space
    have hrest : rawArgs (r ++ SPACE :: COLON :: text) ≠ [] := by
      have hne := rawArgs_ne_nil (a := r ++ [SPACE]) ht
      rwa [List.append_assoc] at hne
    obtain ⟨a2, more, hmore⟩ := List.exists_cons_of_ne_nil hrest
    refine ⟨a2, more, ?_, fun h => absurd h (by simp), fun r' hr' => ?_⟩
    · rw [List.append_assoc, List.cons_append, rawArgs_word_space hk hspace hcolon, hmore]
    · obtain ⟨-, hr⟩ := List.cons.inj (List.append_cancel_left hr')
      rw [hr, List.cons_append, rawArgs_text (by simp)] at hmore
      exact (List.cons.inj hmore).1.symm
  · refine ⟨r ++ SPACE :: COLON :: text, [], ?_, fun h => absurd h (by simp), fun r' hr' => ?_⟩
    · rw [List.append_assoc, List.cons_append, rawArgs_word_colon hk hspace hcolon (by simp)]
    · exact absurd (List.cons.inj (List.append_cancel_left hr')).1 (by decide)

/-- The arguments of a message. -/
theorem args_message {cmd : String} (hne : str cmd ≠ []) (hs : SPACE ∉ str cmd) (hc : COLON ∉ str cmd)
    (hk : addressee k ≠ []) (ht : text ≠ []) : ∃ a2 more,
    splitCmdToArgs (messageCmd cmd k text) = str cmd :: addressee k :: a2 :: more ∧
      (k = addressee k → a2 = text) ∧ ∀ r, k = addressee k ++ SPACE :: COLON :: r → a2 = r ++ SPACE :: COLON :: text := by
  obtain ⟨a2, more, hraw, hplain, hcut⟩ := rawArgs_target hk ht
  refine ⟨a2, more.take 14, ?_, hplain, hcut⟩
  apply splitCmdToArgs_three
  have hline : messageCmd cmd k text = str cmd ++ SPACE :: (k ++ SPACE :: COLON :: text) := by
    unfold messageCmd
    rw [List.append_assoc, List.append_assoc, List.append_assoc]
    rfl
  rw [hline, rawArgs_word_space hne hs hc, hraw]

/-! ## The law -/

/-- When the line of `x` to its channel `k` does what it should. -/
@[mk_iff]
structure Addressed (s : Server) (x : Ptr) (c : Cli) (k text : Str) : Prop where
  lower : toLower (addressee k) = addressee k
  member : On s x (addressee k)
  same : ∀ y, y ≠ x → (On s y (addressee k) ↔ On s y k)
  /-- if there is somebody to tell, the line reads as it was sent, and fits -/
  line : (∃ y, y ≠ x ∧ On s y k) →
    (k = addressee k ∨ (addressee k ++ str " :") <+: k) ∧ (privmsgLine c k text).length ≤ MAX_CMD_LEN - 2

/-- For a name without spaces and colons, it is the spelling that counts. -/
theorem addressed_plain (hs : SPACE ∉ k) (hc : COLON ∉ k) (hon : On s x k) : Addressed s x c k text ↔
    toLower k = k ∧ ((∃ y, y ≠ x ∧ On s y k) → (privmsgLine c k text).length ≤ MAX_CMD_LEN - 2) := by
  have hk : addressee k = k := List.takeWhile_eq_self_iff.mpr fun b hb =>
    decide_eq_true ⟨fun h => hs (h ▸ hb), fun h => hc (h ▸ hb)⟩
  rw [addressed_iff, hk]
  simp only [hon, true_and, iff_self, implies_true, true_or]

theorem addressee_hash (hk : ChName k) : (addressee k).head? = some HASH := by
  have hhead := hk.hash
  cases k with
  | nil => cases hhead
  | cons b k =>
    cases hhead
    rfl

theorem splitArgToSubargs_addressee (hk : ChName k) : splitArgToSubargs (addressee k) = [addressee k] := by
  have hne : addressee k ≠ [] := by
    intro h
    have := addressee_hash hk
    rw [h] at this
    cases this
  exact splitArgToSubargs_item hne fun h => hk.comma ((List.takeWhile_prefix _).subset h)

/-- The line that is relayed is the one that was meant. -/
theorem relayed_eq_iff (hplain : k = addressee k → a2 = text)
    (hcut : ∀ r, k = addressee k ++ SPACE :: COLON :: r → a2 = r ++ SPACE :: COLON :: text) :
    (privmsgLine c (addressee k) a2).take (MAX_CMD_LEN - 2) = privmsgLine c k text ↔
      (k = addressee k ∨ (addressee k ++ str " :") <+: k) ∧ (privmsgLine c k text).length ≤ MAX_CMD_LEN - 2 := by
  have hsep : ∀ a b : Str, privmsgLine c a b = (str ":" ++ localPrefix c ++ str " PRIVMSG ") ++ (a ++ SPACE :: COLON :: b) := by
    intro a b
    unfold privmsgLine
    simp only [List.append_assoc]
    rfl
  constructor
  · intro h
    have hlen : (privmsgLine c k text).length ≤ MAX_CMD_LEN - 2 := by
      rw [← h]
      exact List.length_take_le _ _
    refine ⟨?_, hlen⟩
    have hpre : privmsgLine c k text <+: privmsgLine c (addressee k) a2 := h ▸ List.take_prefix _ _
    rw [hsep, hsep, List.prefix_append_right_inj] at hpre
    rcases addressee_split k with hk | ⟨r, hk⟩ | ⟨r, hk⟩
    · exact .inl hk
    · -- what follows the space is the colon
      right
      generalize addressee k = w at hk hpre
      subst hk
      rw [List.append_assoc, List.prefix_append_right_inj, List.cons_append, List.cons_prefix_cons] at hpre
      cases r with
      | nil => exact absurd (List.cons_prefix_cons.mp hpre.2).1 (by decide)
      | cons b r =>
        obtain ⟨rfl, -⟩ := List.cons_prefix_cons.mp hpre.2
        exact ⟨r, by simp [str, SPACE, COLON]⟩
    · generalize addressee k = w at hk hpre
      subst hk
      rw [List.append_assoc, List.prefix_append_right_inj, List.cons_append, List.cons_prefix_cons] at hpre
      exact absurd hpre.1 (by decide)
  · rintro ⟨hk, hlen⟩
    have hsame : privmsgLine c (addressee k) a2 = privmsgLine c k text := by
      rcases hk with hk | ⟨r, hk⟩
      · rw [← hk, hplain hk]
      · have hk' : k = addressee k ++ SPACE :: COLON :: r := hk.symm.trans (List.append_assoc ..)
        rw [hsep, hsep, hcut r hk']
        generalize addressee k = w at hk'
        rw [hk', List.append_assoc w]
        rfl
    rw [hsame, List.take_of_length_le hlen]

/-- The others on `ch` get the line `L'`: that is what the others on `k` should get. -/
theorem others_iff {L L' : Str} (hI : Inv s) (hch : s.chs[w]? = some ch) :
    (∀ y d, s.cliAt y = some d → frames (if y ≠ x ∧ y ∈ ch.clis then [L'] else []) =
        if y ≠ x ∧ On s y k then L ++ CRLF else []) ↔
      (∀ y, y ≠ x → (y ∈ ch.clis ↔ On s y k)) ∧
        ((∃ y, y ≠ x ∧ On s y k) → L'.take (MAX_CMD_LEN - 2) = L) := by
  constructor
  · intro hall
    have hsame : ∀ y, y ≠ x → (y ∈ ch.clis ↔ On s y k) := by
      intro y hy
      constructor
      · intro hin
        obtain ⟨d, hd, -⟩ := hI.member w ch hch y hin
        by_contra hoff
        have h := hall y d hd
        rw [if_pos ⟨hy, hin⟩, if_neg fun h => hoff h.2] at h
        exact frame_ne_nil (List.append_eq_nil_iff.mp h).1
      · rintro ⟨ch', hch', hin⟩
        obtain ⟨d, hd, -⟩ := hI.member k ch' hch' y hin
        by_contra hoff
        have h := hall y d hd
        rw [if_neg fun h => hoff h.2, if_pos ⟨hy, ch', hch', hin⟩] at h
        exact absurd h.symm (by simp [CRLF])
    refine ⟨hsame, ?_⟩
    rintro ⟨y, hy, ch', hch', hin⟩
    obtain ⟨d, hd, -⟩ := hI.member k ch' hch' y hin
    have h := hall y d hd
    rw [if_pos ⟨hy, (hsame y hy).mpr ⟨ch', hch', hin⟩⟩, if_pos ⟨hy, ch', hch', hin⟩, frames_singleton] at h
    exact List.append_cancel_right h
  · rintro ⟨hsame, hline⟩ y d -
    by_cases hy : y ≠ x ∧ On s y k
    · rw [if_pos ⟨hy.1, (hsame y hy.1).mpr hy.2⟩, if_pos hy, frames_singleton, hline ⟨y, hy⟩]
    · rw [if_neg fun h => hy ⟨h.1, (hsame y h.1).mp h.2⟩, if_neg hy]
      rfl

/-- **PRIVMSG to a channel**: the line of a member is relayed to the other members, each once, and to nobody
else, exactly if it is `Addressed`. -/
theorem delivers_iff (hr : Reachable pass lfd cfg) (hc : cfg.srv.cliAt x = some c) (hreg : c.registered = true)
    (hon : On cfg.srv x k) (ht : text ≠ []) :
    Delivers cfg.srv x (messageCmd "PRIVMSG" k text)
        (fun y => if y ≠ x ∧ On cfg.srv y k then privmsgLine c k text ++ CRLF else []) ↔
      Addressed cfg.srv x c k text := by
  have hI := hr.good.inv
  have hname : ChName k := hI.ch_name k (mem_of_on hon)
  have hhash := addressee_hash hname
  have hw0 : addressee k ≠ [] := fun h => by rw [h] at hhash; cases hhash
  obtain ⟨a2, more, hargs, hplain, hcut⟩ :=
    args_message (by decide : str "PRIVMSG" ≠ []) (by decide) (by decide) hw0 ht
  have hline := relayed_eq_iff (c := c) hplain hcut
  have hcmd : CmdIs (str "PRIVMSG" :: addressee k :: a2 :: more) "PRIVMSG" := rfl
  have hone := splitArgToSubargs_addressee hname
  rw [delivers_iff_inbox hI hc, hargs, cmdSafe_privmsg_one hc hreg hcmd rfl rfl hone,
    cmdRun_privmsg_one hreg hcmd rfl rfl hone, addressed_iff]
  generalize addressee k = w at hhash hone hline ⊢
  -- a reply to the author is too much
  have hreply : ∀ m, privmsgMail cfg.srv x c w a2 w = [(x, m)] →
      ¬ ∀ y d, cfg.srv.cliAt y = some d → frames (inbox y (privmsgMail cfg.srv x c w a2 w)) =
        if y ≠ x ∧ On cfg.srv y k then privmsgLine c k text ++ CRLF else [] := by
    intro m hm hall
    have hx := hall x c hc
    rw [hm, inbox_cons, if_pos rfl, if_neg fun h => h.1 rfl] at hx
    exact frame_ne_nil (List.append_eq_nil_iff.mp hx).1
  by_cases hlow : toLower w ∈ cfg.srv.chs
  · by_cases hkey : w ∈ cfg.srv.chs
    · have hself : toLower w = w := hI.ch_inj _ hlow _ hkey (toLower_idem w)
      obtain ⟨ch, hch⟩ := mem_chs.mp hkey
      by_cases hx : x ∈ ch.clis
      · have hm : privmsgMail cfg.srv x c w a2 w = bcastOthers ch x (privmsgLine c w a2) := by
          unfold privmsgMail
          rw [if_pos hhash, if_neg (not_not.mpr hlow), hch]
          exact if_pos hx
        rw [hm, and_iff_right fun _ _ => hkey, and_iff_right hself, and_iff_right ((on_iff hch).mpr hx), ← hline]
        simp only [inbox_bcastOthers, on_iff hch]
        exact others_iff hI hch
      · have hm : privmsgMail cfg.srv x c w a2 w =
            [(x, str "404 :" ++ localPrefix c ++ str " " ++ w ++ str " :Cannot send to channel")] := by
          unfold privmsgMail
          rw [if_pos hhash, if_neg (not_not.mpr hlow), hch]
          exact if_neg hx
        exact iff_of_false (fun h => hreply _ hm h.2) fun h => hx ((on_iff hch).mp h.2.1)
    · exact iff_of_false (fun h => hkey (h.1 hhash hlow)) fun h => hkey (mem_of_on h.2.1)
  · have hm : privmsgMail cfg.srv x c w a2 w = [(x, str "401 " ++ w ++ str " :No such nick/channel " ++ w)] := by
      unfold privmsgMail
      rw [if_pos hhash, if_pos hlow]
    refine iff_of_false (fun h => hreply _ hm h.2) fun h => hlow ?_
    rw [h.1]
    exact mem_of_on h.2.1

/-- A message of a member of `#c`. -/
theorem delivers_lower : ∃ cfg c, Reachable (str "2") 3 cfg ∧ cfg.srv.cliAt alice.addr = some c ∧
    On cfg.srv bob.addr (str "#c") ∧
    Delivers cfg.srv alice.addr (messageCmd "PRIVMSG" (str "#c") (str "hi"))
      (fun y => if y ≠ alice.addr ∧ On cfg.srv y (str "#c") then privmsgLine c (str "#c") (str "hi") ++ CRLF else []) := by
  obtain ⟨cfg, hrun, hP⟩ := exists_run (str "2") 3 (connect 0 alice ++ connect 1 bob ++
    say 1 0 4 (register "bo" ++ str "JOIN #c\r\n") ++ say 0 1 4 (register "al" ++ str "JOIN #c\r\n"))
    (fun cfg => decide (On cfg.srv bob.addr (str "#c")) && decide (On cfg.srv alice.addr (str "#c")) &&
      (cfg.srv.cliAt alice.addr).any fun c => c.registered && decide ((privmsgLine c (str "#c") (str "hi")).length ≤
        MAX_CMD_LEN - 2)) (by decide +kernel)
  simp only [Bool.and_eq_true, Option.any_eq_true, decide_eq_true_eq] at hP
  obtain ⟨⟨hbob, halice⟩, c, hc, hreg, hlen⟩ := hP
  have haddr : Addressed cfg.srv alice.addr c (str "#c") (str "hi") :=
    (addressed_plain (by decide) (by decide) halice).mpr ⟨by decide, fun _ => hlen⟩
  exact ⟨cfg, c, ⟨_, hrun⟩, hc, hbob, (delivers_iff ⟨_, hrun⟩ hc hreg halice (by decide)).mpr haddr⟩

/-- The members of `#C` cannot talk on it. -/
theorem capital_undelivered : ¬ ∀ (pass : Str) (lfd : Nat) (cfg : Config), Reachable pass lfd cfg →
    ∀ (x : Ptr) (c : Cli) (k text : Str), cfg.srv.cliAt x = some c → c.registered = true → On cfg.srv x k →
      text ≠ [] → Delivers cfg.srv x (messageCmd "PRIVMSG" k text)
        (fun y => if y ≠ x ∧ On cfg.srv y k then privmsgLine c k text ++ CRLF else []) := by
  intro hall
  obtain ⟨cfg, hrun, hP⟩ := exists_run (str "2") 3 (connect 0 alice ++ connect 1 bob ++
    say 1 0 4 (register "bo" ++ str "JOIN #C\r\n") ++ say 0 1 4 (register "al" ++ str "JOIN #C\r\n"))
    (fun cfg => decide (On cfg.srv bob.addr (str "#C")) && decide (On cfg.srv alice.addr (str "#C")) &&
      (cfg.srv.cliAt alice.addr).any fun c => c.registered &&
        (cfg.srv.execLine alice.addr (messageCmd "PRIVMSG" (str "#C") (str "hi"))).toOption.any fun s' =>
          (s'.cliAt alice.addr).any fun c' => c'.bufToSend ≠ c.bufToSend) (by decide +kernel)
  simp only [Bool.and_eq_true, Option.any_eq_true, decide_eq_true_eq] at hP
  obtain ⟨⟨-, halice⟩, c, hc, hreg, s', hs', c', hc', hbuf⟩ := hP
  obtain ⟨t, ht, hdel⟩ := hall _ _ cfg ⟨_, hrun⟩ _ c _ (str "hi") hc hreg halice (by decide)
  rw [eq_ok_of_toOption hs'] at ht
  cases ht
  obtain ⟨d, hd, heq⟩ := hdel _ c hc
  rw [hc'] at hd
  cases hd
  simp only [ne_eq, not_true_eq_false, false_and, if_false, List.append_nil] at heq
  exact hbuf heq

end FtIrc
