import FtIrc.Meaning.Basic

/-!
# What the registration commands come to

Each of `PASS`, `NICK`, `USER` and `CAP` writes the record of its author (`passSet`, `nickSet`,
`userSet`, `capSet`) and replies (`passMail`, …).  A missing argument and an empty one are answered
alike, so the argument is read as `argD`.
-/

namespace FtIrc

open Std Outcome Server

variable {s s' : Server} {x : Ptr} {ar : List Str} {c d : Cli} {m : Str} {mail : Mail}

/-- `ar[k]`, or the empty string. -/
def argD (ar : List Str) (k : Nat) : Str := (ar[k]?).getD []

theorem argD_of_getElem? {k : Nat} {a : Str} (h : ar[k]? = some a) : argD ar k = a := by
  unfold argD
  rw [h]
  rfl

theorem argD_of_length {k : Nat} (h : ar.length ≤ k) : argD ar k = [] := by
  unfold argD
  rw [List.getElem?_eq_none h]
  rfl

/-- The registration is complete, and no negotiation is open. -/
def Cli.welcome (c : Cli) : Bool :=
  c.passOk && c.nick ≠ [] && c.uName ≠ [] && !c.capInProgress

theorem Cli.welcome_iff : c.welcome = true ↔
    c.passOk = true ∧ c.nick ≠ [] ∧ c.uName ≠ [] ∧ c.capInProgress = false := by
  simp [Cli.welcome, and_assoc]

/-! ## PASS -/

/-- The password is taken, right or wrong. -/
def PassTaken (ar : List Str) (c : Cli) : Prop := c.passOk = false ∧ argD ar 1 ≠ []

instance : Decidable (PassTaken ar c) := by
  unfold PassTaken
  infer_instance

def passSet (ar : List Str) (c : Cli) : Cli :=
  if PassTaken ar c then { c with passOk := true } else c

/-- `passOk` has been set: the welcome, unless something else is missing. -/
def welcomeMail (x : Ptr) (c : Cli) : Mail := if c.welcome then [(x, rplWelcome c)] else []

def passMail (s : Server) (x : Ptr) (c : Cli) (ar : List Str) : Mail :=
  if c.passOk then [(x, str "462 :Unauthorized command (already registered)")]
  else if argD ar 1 = [] then [(x, str "461 PASS :Not enough parameters")]
  else
    (if argD ar 1 ≠ s.pass then [(x, str "464 :" ++ c.nick ++ str " :Password incorrect")] else []) ++
      welcomeMail x { c with passOk := true }

/-- A wrong password marks the client. -/
def passMark (s : Server) (c : Cli) (ar : List Str) : Server :=
  if PassTaken ar c ∧ argD ar 1 ≠ s.pass then s.markToErase c.fd else s

theorem passSet_keepsAddr : KeepsAddr (passSet ar) := fun c => by
  unfold passSet
  split <;> exact ⟨rfl, rfl⟩

/-- A reply that leaves the record as it is. -/
theorem reply_same {f : Cli → Cli} (hI : Inv s) (hc : s.cliAt x = some c) (hf : f c = c) (m : Str) :
    s.prepareResp x m = .ok ((s.updCli x f).sendAll [(x, m)]) := by
  rw [updCli_same hI hc hf, reply_ok hI hc]

/-- The end of the handlers that complete a registration. -/
theorem welcome_ok (hI : Inv s) (hc : s.cliAt x = some c) {f : Cli → Cli} (hf : KeepsAddr f)
    (mail : Mail) {b : Prop} [Decidable b] (hb : b ↔ (f c).welcome = true) :
    (if b then ((s.updCli x f).sendAll mail).prepareResp x (rplWelcome (f c))
      else Except.ok ((s.updCli x f).sendAll mail)) =
      .ok ((s.updCli x f).sendAll (mail ++ welcomeMail x (f c))) := by
  have hd : ((s.updCli x f).sendAll mail).deref x = .ok ((f c).receive (inbox x mail)) := by
    refine deref_sendAll (deref_ok.mpr ⟨ne_null_of_cliAt hI hc, ?_⟩)
    rw [cliAt_updCli hf, if_pos rfl, hc]
    rfl
  unfold welcomeMail
  by_cases h : b
  · rw [if_pos h, if_pos (hb.mp h), sendAll_append]
    exact prepareResp_sendAll hd
  · rw [if_neg h, if_neg fun h' => h (hb.mpr h'), List.append_nil]

theorem execPass_run (hI : Inv s) (hc : s.cliAt x = some c) :
    s.execPass x ar =
      .ok (((passMark s c ar).updCli x (passSet ar)).sendAll (passMail s x c ar)) := by
  have hmarked : ∀ t : Server, Inv t → t.cliAt x = some c → PassTaken ar c → ∀ mail,
      (if c.nick ≠ [] ∧ c.uName ≠ [] ∧ c.capInProgress = false then
        ((t.sendAll mail).updCli x fun c => { c with passOk := true }).prepareResp x (rplWelcome c)
        else Except.ok ((t.sendAll mail).updCli x fun c => { c with passOk := true })) =
        .ok ((t.updCli x (passSet ar)).sendAll (mail ++ welcomeMail x { c with passOk := true })) := by
    intro t hIt hct htaken mail
    have hkeep : KeepsAddr fun c : Cli => { c with passOk := true } := fun _ => ⟨rfl, rfl⟩
    have hset : t.updCli x (passSet ar) = t.updCli x fun c => { c with passOk := true } := by
      rw [updCli_const hIt hct, updCli_const hIt hct fun c => { c with passOk := true }, passSet,
        if_pos htaken]
    rw [hset, updCli_sendAll hkeep fun _ _ => rfl]
    refine welcome_ok hIt hct hkeep mail ?_
    rw [Cli.welcome_iff]
    exact ⟨fun h => ⟨rfl, h⟩, fun h => h.2⟩
  unfold execPass passMail
  rw [deref_of_cliAt hI hc]
  show (if c.passOk = true then _ else if ar.length < 2 then _ else arg ar 1 >>= _) = _
  by_cases hp : c.passOk = true
  · have hno : ¬ PassTaken ar c := fun h => by rw [h.1] at hp; cases hp
    have hset : passSet ar c = c := if_neg hno
    have hmark : passMark s c ar = s := if_neg fun h => hno h.1
    rw [if_pos hp, if_pos hp, hmark]
    exact reply_same hI hc hset _
  · rw [if_neg hp, if_neg hp]
    by_cases h1 : argD ar 1 = []
    · have hno : ¬ PassTaken ar c := fun h => h.2 h1
      have hset : passSet ar c = c := if_neg hno
      have hmark : passMark s c ar = s := if_neg fun h => hno h.1
      have hrep := reply_same hI hc hset (str "461 PASS :Not enough parameters")
      rw [if_pos h1, hmark]
      by_cases h2 : ar.length < 2
      · rw [if_pos h2]
        exact hrep
      · obtain ⟨a1, ha1⟩ := exists_arg ar 1 (by omega)
        rw [argD_of_getElem? ha1] at h1
        rw [if_neg h2, arg_ok ha1]
        show (if a1 = [] then _ else _) = _
        rw [if_pos h1]
        exact hrep
    · have htaken : PassTaken ar c := ⟨by simpa using hp, h1⟩
      have h2 : ¬ ar.length < 2 := fun h2 => h1 (argD_of_length (by omega))
      obtain ⟨a1, ha1⟩ := exists_arg ar 1 (by omega)
      have harg := argD_of_getElem? ha1
      rw [if_neg h1, if_neg h2, arg_ok ha1]
      unfold passMark
      rw [harg] at h1 ⊢
      show (if a1 = [] then _ else if a1 ≠ s.pass then
        (s.markToErase c.fd).prepareResp x _ >>= _ else _ >>= _) = _
      rw [if_neg h1]
      by_cases hw : a1 ≠ s.pass
      · have hIm := inv_markToErase hI c.fd
        rw [if_pos hw, if_pos hw, if_pos ⟨htaken, hw⟩, reply_ok hIm hc]
        exact hmarked _ hIm hc htaken _
      · rw [if_neg hw, if_neg hw, if_neg fun h => hw h.2]
        exact hmarked s hI hc htaken []

/-! ## NICK -/

/-- The nick is accepted. -/
def NickTaken (s : Server) (ar : List Str) : Prop :=
  argD ar 1 ≠ [] ∧ (argD ar 1).length ≤ 9 ∧ (∀ b ∈ argD ar 1, b ∈ nickChars) ∧
    ∀ d ∈ s.clients, toLower (argD ar 1) ≠ toLower d.nick

instance : Decidable (NickTaken s ar) := by
  unfold NickTaken
  infer_instance

def nickSet (s : Server) (ar : List Str) (c : Cli) : Cli :=
  if NickTaken s ar then { c with nick := argD ar 1 } else c

def nickMail (s : Server) (x : Ptr) (c : Cli) (ar : List Str) : Mail :=
  if argD ar 1 = [] then [(x, str "431 :No nickname given")]
  else if 9 < (argD ar 1).length ∨ ¬ ∀ b ∈ argD ar 1, b ∈ nickChars then
    [(x, str "432 " ++ argD ar 1 ++ str " :Erroneus nickname")]
  else if ∃ d ∈ s.clients, toLower (argD ar 1) = toLower d.nick then
    [(x, str "433 " ++ c.nick ++ str " " ++ argD ar 1 ++ str " :Nickname is already in use")]
  else welcomeMail x { c with nick := argD ar 1 }

theorem nickSet_keepsAddr : KeepsAddr (nickSet s ar) := fun c => by
  unfold nickSet
  split <;> exact ⟨rfl, rfl⟩

theorem execNick_run (hI : Inv s) (hc : s.cliAt x = some c) :
    s.execNick x ar = .ok ((s.updCli x (nickSet s ar)).sendAll (nickMail s x c ar)) := by
  have hrep : ¬ NickTaken s ar → ∀ m, s.prepareResp x m =
      .ok ((s.updCli x (nickSet s ar)).sendAll [(x, m)]) := fun hno m =>
    reply_same hI hc (f := nickSet s ar) (if_neg hno) m
  unfold execNick nickMail
  rw [deref_of_cliAt hI hc]
  show (if ar.length < 2 then _ else arg ar 1 >>= _) = _
  by_cases h2 : ar.length < 2
  · have h1 : argD ar 1 = [] := argD_of_length (by omega)
    rw [if_pos h2, if_pos h1]
    exact hrep (fun h => h.1 h1) _
  · obtain ⟨a1, ha1⟩ := exists_arg ar 1 (by omega)
    have harg := argD_of_getElem? ha1
    rw [if_neg h2, arg_ok ha1]
    unfold NickTaken at hrep
    rw [harg] at hrep ⊢
    show (if a1.length = 0 then _ else if 9 < a1.length ∨ ¬ ∀ b ∈ a1, b ∈ nickChars then _ else
      if ∃ d ∈ s.clients, toLower a1 = toLower d.nick then _ else _) = _
    by_cases h1 : a1 = []
    · rw [if_pos (by simp [h1]), if_pos h1]
      exact hrep (fun h => h.1 h1) _
    rw [if_neg (by simp [h1]), if_neg h1]
    by_cases hbad : 9 < a1.length ∨ ¬ ∀ b ∈ a1, b ∈ nickChars
    · rw [if_pos hbad, if_pos hbad]
      refine hrep (fun h => ?_) _
      rcases hbad with hlen | hch
      · exact absurd h.2.1 (by omega)
      · exact hch h.2.2.1
    rw [if_neg hbad, if_neg hbad]
    by_cases huse : ∃ d ∈ s.clients, toLower a1 = toLower d.nick
    · rw [if_pos huse, if_pos huse]
      obtain ⟨d, hd, he⟩ := huse
      exact hrep (fun h => h.2.2.2 d hd he) _
    · rw [if_neg huse, if_neg huse]
      push Not at hbad huse
      have htaken : NickTaken s ar := by
        unfold NickTaken
        rw [harg]
        exact ⟨h1, hbad.1, hbad.2, huse⟩
      have hkeep : KeepsAddr fun c : Cli => { c with nick := a1 } := fun _ => ⟨rfl, rfl⟩
      have hset : s.updCli x (nickSet s ar) = s.updCli x fun c => { c with nick := a1 } := by
        rw [updCli_const hI hc, updCli_const hI hc fun c => { c with nick := a1 }, nickSet,
          if_pos htaken, harg]
      rw [hset]
      refine welcome_ok hI hc hkeep [] ?_
      rw [Cli.welcome_iff]
      exact ⟨fun h => ⟨h.2.1, h1, h.1, h.2.2⟩, fun h => ⟨h.2.2.1, h.1, h.2.2.2⟩⟩

/-! ## USER -/

def UserTaken (ar : List Str) (c : Cli) : Prop := 5 ≤ ar.length ∧ c.uName = []

instance : Decidable (UserTaken ar c) := by
  unfold UserTaken
  infer_instance

def userSet (ar : List Str) (c : Cli) : Cli :=
  if UserTaken ar c then { c with uName := argD ar 1, rName := argD ar 4 } else c

def userMail (x : Ptr) (c : Cli) (ar : List Str) : Mail :=
  if ar.length < 5 then [(x, str "461 USER :Not enough parameters")]
  else if c.uName ≠ [] then [(x, str ":username can not be empty")]
  else welcomeMail x { c with uName := argD ar 1, rName := argD ar 4 }

theorem userSet_keepsAddr : KeepsAddr (userSet ar) := fun c => by
  unfold userSet
  split <;> exact ⟨rfl, rfl⟩

theorem execUser_run (hI : Inv s) (hc : s.cliAt x = some c) (hne : ∀ a ∈ ar, a ≠ []) :
    s.execUser x ar = .ok ((s.updCli x (userSet ar)).sendAll (userMail x c ar)) := by
  unfold execUser userMail
  rw [deref_of_cliAt hI hc]
  show (if ar.length < 5 then _ else if c.uName ≠ [] then _ else arg ar 1 >>= _) = _
  by_cases h5 : ar.length < 5
  · rw [if_pos h5, if_pos h5]
    exact reply_same hI hc (f := userSet ar) (if_neg fun h => absurd h.1 (by omega)) _
  rw [if_neg h5, if_neg h5]
  by_cases hu : c.uName ≠ []
  · rw [if_pos hu, if_pos hu]
    exact reply_same hI hc (f := userSet ar) (if_neg fun h => hu h.2) _
  · obtain ⟨a1, ha1⟩ := exists_arg ar 1 (by omega)
    obtain ⟨a4, ha4⟩ := exists_arg ar 4 (by omega)
    have htaken : UserTaken ar c := ⟨by omega, not_not.mp hu⟩
    have hkeep : KeepsAddr fun c : Cli => { c with uName := a1, rName := a4 } := fun _ => ⟨rfl, rfl⟩
    have hset : s.updCli x (userSet ar) = s.updCli x fun c => { c with uName := a1, rName := a4 } := by
      rw [updCli_const hI hc, updCli_const hI hc fun c => { c with uName := a1, rName := a4 }, userSet,
        if_pos htaken, argD_of_getElem? ha1, argD_of_getElem? ha4]
    rw [if_neg hu, if_neg hu, arg_ok ha1, arg_ok ha4, argD_of_getElem? ha1, argD_of_getElem? ha4, hset]
    refine welcome_ok hI hc hkeep [] ?_
    rw [Cli.welcome_iff]
    exact ⟨fun h => ⟨h.2.1, h.1, hne a1 (List.mem_of_getElem? ha1), h.2.2⟩,
      fun h => ⟨h.2.1, h.1, h.2.2.2⟩⟩

/-! ## CAP and PING -/

def capSet (ar : List Str) (c : Cli) : Cli :=
  if argD ar 1 = str "LS" then { c with capInProgress := true }
  else if argD ar 1 = str "END" ∧ c.registered = true then { c with capInProgress := false }
  else c

def capMail (x : Ptr) (c : Cli) (ar : List Str) : Mail :=
  if argD ar 1 = str "LS" then [(x, str "CAP * LS :")]
  else if argD ar 1 = str "END" ∧ c.registered = true then [(x, str "001 :" ++ c.nick)]
  else []

theorem capSet_keepsAddr : KeepsAddr (capSet ar) := fun c => by
  unfold capSet
  split
  · exact ⟨rfl, rfl⟩
  · split <;> exact ⟨rfl, rfl⟩

theorem execCap_run (hI : Inv s) (hc : s.cliAt x = some c) :
    s.execCap x ar = .ok ((s.updCli x (capSet ar)).sendAll (capMail x c ar)) := by
  -- a write, and a reply
  have hput : ∀ (b : Bool) m, capSet ar c = { c with capInProgress := b } →
      (s.updCli x fun c => { c with capInProgress := b }).prepareResp x m =
        .ok ((s.updCli x (capSet ar)).sendAll [(x, m)]) := by
    intro b m hset
    have hkeep : KeepsAddr fun c : Cli => { c with capInProgress := b } := fun _ => ⟨rfl, rfl⟩
    have heq : s.updCli x (capSet ar) = s.updCli x fun c => { c with capInProgress := b } := by
      rw [updCli_const hI hc, updCli_const hI hc fun c => { c with capInProgress := b }, hset]
    rw [heq]
    refine prepareResp_sendAll (c := { c with capInProgress := b })
      (deref_ok.mpr ⟨ne_null_of_cliAt hI hc, ?_⟩)
    rw [cliAt_updCli hkeep, if_pos rfl, hc]
    rfl
  have hsame : capSet ar c = c → s.updCli x (capSet ar) = s := updCli_same hI hc
  unfold execCap capMail
  rw [deref_of_cliAt hI hc]
  show (if ar.length < 2 then _ else arg ar 1 >>= _) = _
  by_cases h2 : ar.length < 2
  · have h1 : argD ar 1 = [] := argD_of_length (by omega)
    have hls : argD ar 1 ≠ str "LS" := by rw [h1]; decide
    have hend : argD ar 1 ≠ str "END" := by rw [h1]; decide
    rw [if_pos h2, if_neg hls, if_neg fun h => hend h.1, hsame]
    · rfl
    · unfold capSet
      rw [if_neg hls, if_neg fun h => hend h.1]
  · obtain ⟨a1, ha1⟩ := exists_arg ar 1 (by omega)
    have harg := argD_of_getElem? ha1
    rw [if_neg h2, arg_ok ha1, harg]
    show (if a1 = str "LS" then _ else if a1 = str "END" ∧ c.registered = true then _ else _) = _
    by_cases hls : a1 = str "LS"
    · rw [if_pos hls, if_pos hls]
      refine hput true _ ?_
      unfold capSet
      rw [harg, if_pos hls]
    rw [if_neg hls, if_neg hls]
    by_cases hend : a1 = str "END" ∧ c.registered = true
    · rw [if_pos hend, if_pos hend]
      refine hput false _ ?_
      unfold capSet
      rw [harg, if_neg hls, if_pos hend]
    · rw [if_neg hend, if_neg hend, hsame]
      · rfl
      · unfold capSet
        rw [harg, if_neg hls, if_neg hend]

theorem execPing_run (hI : Inv s) (hc : s.cliAt x = some c) :
    s.execPing x = .ok (s.sendAll [(x, str "PONG")]) := reply_ok hI hc _

end FtIrc
