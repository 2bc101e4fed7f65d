import FtIrc.Meaning.Relay

/-!
# Lists of channels and targets

`PART`, `KICK` and `JOIN 0` look each item of a list up by itself and announce the list as a whole.
`ListLaw` is what it means that such a command comes to its single commands in turn (`singles`), and
that each departure is announced as the single command announces it; `list_iff` is when that is so.
-/

namespace FtIrc

open Std Outcome Server

variable {s s' t t' : Server} {x y p q : Ptr} {ar : List Str} {c d : Cli} {k u a1 a2 m text line : Str}
  {ch : Ch} {ar' targets items : List Str} {cfg : Config} {pass : Str} {lfd : Nat} {l : String}

/-! ## The single commands -/

/-- The commands with lists. -/
def IsList (ar : List Str) : Prop :=
  (CmdIs ar "PART" ∧ 2 ≤ ar.length) ∨ (CmdIs ar "KICK" ∧ 3 ≤ ar.length) ∨
    (CmdIs ar "JOIN" ∧ ar.length = 2 ∧ argD ar 1 = str "0")

/-- The commands that the lists of `ar` stand for, in the order of the lists. -/
def singles (s : Server) (x : Ptr) (ar : List Str) : List (List Str) :=
  if CmdIs ar "KICK" then
    (splitArgToSubargs (argD ar 1)).flatMap fun k =>
      (splitArgToSubargs (argD ar 2)).map fun u => (ar.set 1 k).set 2 u
  else if CmdIs ar "JOIN" then (chsOf s x).map fun k => [str "PART", k]
  else (splitArgToSubargs (argD ar 1)).map fun k => ar.set 1 k

/-- Commands of `x`, one after the other. -/
def inTurn (x : Ptr) : List (List Str) → Server → Except Fault Server
  | [], s => .ok s
  | ar :: ars, s => do
    let s ← s.execCmd x ar
    inTurn x ars s

/-- An author who was an operator of the channel of each of the commands, in `s`, still is when its turn
comes. -/
def WhileOperator (s : Server) (x : Ptr) : List (List Str) → Server → Prop
  | [], _ => True
  | ar :: ars, t => (Op s x (argD ar 1) → Op t x (argD ar 1)) ∧
      ∀ t', t.execCmd x ar = .ok t' → WhileOperator s x ars t'

/-! ## The law -/

/-- The channels have the same members and operators. -/
def SameRoster (s t : Server) : Prop := ∀ k : Str,
  (s.chs[k]?).map (fun ch => (ch.clis, ch.adms)) = (t.chs[k]?).map fun ch => (ch.clis, ch.adms)

/-- The names of the line are within what is kept of it. -/
def Fits (m : Str) : Prop := m.length ≤ MAX_CMD_LEN - 2

instance : Decidable (Fits m) := by
  unfold Fits
  infer_instance

/-- The line announces that `p` leaves the channel `k`, as the single command does. -/
def Announces (s : Server) (c : Cli) (ar : List Str) (k : Str) (p : Ptr) (m : Str) : Prop :=
  if CmdIs ar "KICK" then
    ∃ u ∈ splitArgToSubargs (argD ar 2), s.getCli u = p ∧ m = kickLine c k u (kickText ar) ∧
      Fits (kickLine c k u [])
  else m = partLine c k (partText ar) ∧ Fits (partLine c k [])

/-- Whoever is on a channel, or leaves it, has been told who leaves it. -/
def Announced (s : Server) (c : Cli) (ar : List Str) (s' : Server) : Prop :=
  ∀ k p, On s p k → ¬ On s' p k → ∀ y d d', On s y k → y = p ∨ On s' y k →
    s.cliAt y = some d → s'.cliAt y = some d' →
    ∃ ms, d'.bufToSend = d.bufToSend ++ frames ms ∧ d'.hist.prepared = d.hist.prepared ++ ms ∧
      ∃ m ∈ ms, Announces s c ar k p m

/-- A command with lists has led from `s` to `s'`, its single commands in turn to `t`. -/
structure ListLaw (s : Server) (x : Ptr) (c : Cli) (ar : List Str) (s' t : Server) : Prop where
  composed : (CmdIs ar "KICK" → WhileOperator s x (singles s x ar) s) → SameRoster s' t
  /-- `JOIN 0` leaves all channels -/
  nowhere : CmdIs ar "JOIN" → ∀ k, ¬ On s' x k
  announced : Announced s c ar s'

/-- When the law holds. -/
structure ListCond (s : Server) (x : Ptr) (c : Cli) (ar : List Str) : Prop where
  safe : CmdSafe s x ar
  part : CmdIs ar "PART" → On s x (argD ar 1) → Fits (partLine c (argD ar 1) [])
  zero : CmdIs ar "JOIN" → ∀ k, On s x k → Fits (partLine c k [])
  /-- a list that kicks somebody is a single nick -/
  kick : CmdIs ar "KICK" → ∀ ch, s.chs[argD ar 1]? = some ch → x ∈ ch.adms →
    ∀ u ∈ splitArgToSubargs (argD ar 2), s.getCli u ∈ ch.clis →
      argD ar 2 = u ∧ Fits (kickLine c (argD ar 1) u [])

/-! ## Commands that change no channel -/

/-- Since `s` the author has only been replied to. -/
structure Idle (s t : Server) (x : Ptr) : Prop where
  inv : Inv t
  chs : t.chs = s.chs
  author : ∃ c, t.cliAt x = some c ∧ c.registered = true
  who : ∀ n, t.getCli n = s.getCli n

theorem Idle.refl (hI : Inv s) (hc : s.cliAt x = some c) (hreg : c.registered = true) : Idle s s x :=
  ⟨hI, rfl, ⟨c, hc, hreg⟩, fun _ => rfl⟩

theorem Idle.on_iff (h : Idle s t x) : On t y k ↔ On s y k := by
  unfold On
  rw [h.chs]

theorem Idle.getCh (h : Idle s t x) : t.getCh k = s.getCh k := by
  unfold Server.getCh
  rw [h.chs]

theorem Idle.exec (h : Idle s t x) (hne : ∀ a ∈ ar, a ≠ []) (hsafe : CmdSafe t x ar)
    (hrun : ∀ c, t.cliAt x = some c → c.registered = true → (cmdRun t x c ar).1 = t) :
    ∃ t', t.execCmd x ar = .ok t' ∧ Idle s t' x := by
  obtain ⟨c, hc, hreg⟩ := h.author
  have hexec := execCmd_ok h.inv hc hne hsafe
  rw [hrun c hc hreg] at hexec
  obtain ⟨-, hmid⟩ := (execCmd_spec (.refl h.inv hc) fun _ a ha => hne a (List.mem_of_getElem? ha)).of_ok hexec
  refine ⟨_, hexec, hmid.inv, ?_, ⟨c.receive (inbox x (cmdRun t x c ar).2), ?_, hreg⟩, fun n => ?_⟩
  · rw [chs_sendAll, h.chs]
  · rw [cliAt_sendAll, hc]
    rfl
  · rw [getCli_sendAll, h.who]

theorem Idle.inTurn : ∀ (ars : List (List Str)) (t : Server), Idle s t x →
    (∀ ar ∈ ars, ∀ t, Idle s t x → ∃ t', t.execCmd x ar = .ok t' ∧ Idle s t' x) →
    ∃ t', FtIrc.inTurn x ars t = .ok t' ∧ Idle s t' x
  | [], t, h, _ => ⟨t, rfl, h⟩
  | ar :: ars, t, h, hone => by
    obtain ⟨u, hu, hidle⟩ := hone ar (by simp) t h
    obtain ⟨t', ht', hlast⟩ := Idle.inTurn ars u hidle fun ar' har' => hone ar' (by simp [har'])
    refine ⟨t', ?_, hlast⟩
    unfold FtIrc.inTurn
    rw [hu]
    exact ht'

/-- A single `PART` of a channel the author is not on. -/
theorem Idle.part (h : Idle s t x) (hcmd : CmdIs ar "PART") (hlen : 2 ≤ ar.length) (hne : ∀ a ∈ ar, a ≠ [])
    (hk : k ≠ [] ∧ COMMA ∉ k) (hkey : s.getCh k ≠ none → k ∈ s.chs) (hoff : ¬ On s x k) :
    ∃ t', t.execCmd x (ar.set 1 k) = .ok t' ∧ Idle s t' x := by
  have harg : (ar.set 1 k)[1]? = some k := List.getElem?_set_self (by omega)
  have hcmd' : CmdIs (ar.set 1 k) "PART" := by
    obtain ⟨rest, rfl⟩ := cmdIs_cons hcmd
    exact hcmd
  have hoff' : ¬ On t x k := fun hon => hoff (h.on_iff.mp hon)
  refine h.exec (fun a ha => ?_) ?_ fun c' hc' hreg' => ?_
  · rcases List.mem_or_eq_of_mem_set ha with ha | rfl
    · exact hne a ha
    · exact hk.1
  · refine (cmdSafe_part hcmd').mpr fun _ a ha => ?_
    rw [harg] at ha
    cases ha
    rw [splitArgToSubargs_item hk.1 hk.2]
    intro i hi hget
    rw [List.mem_singleton.mp hi] at hget ⊢
    rw [h.getCh] at hget
    rw [h.chs]
    exact ⟨hkey hget, fun hon => absurd hon hoff'⟩
  · rw [cmdRun_part hcmd']
    unfold partRun registeredRun partDone
    rw [if_neg (by simp [hreg']), if_neg (by rw [List.length_set]; omega), argD_of_getElem? harg, if_neg hoff']

/-- A single `KICK` that finds nobody to kick. -/
theorem Idle.kick (h : Idle s t x) (hcmd : CmdIs ar "KICK") (hlen : 3 ≤ ar.length) (hne : ∀ a ∈ ar, a ≠ [])
    (hk : k ≠ [] ∧ COMMA ∉ k) (hu : u ≠ [] ∧ COMMA ∉ u) (hkey : s.getCh k ≠ none → k ∈ s.chs)
    (hnone : ∀ ch, s.chs[k]? = some ch → x ∈ ch.adms → s.getCli u ∉ ch.clis) :
    ∃ t', t.execCmd x ((ar.set 1 k).set 2 u) = .ok t' ∧ Idle s t' x := by
  have harg1 : ((ar.set 1 k).set 2 u)[1]? = some k := by
    rw [List.getElem?_set_ne (by omega), List.getElem?_set_self (by omega)]
  have harg2 : ((ar.set 1 k).set 2 u)[2]? = some u :=
    List.getElem?_set_self (by rw [List.length_set]; omega)
  have hcmd' : CmdIs ((ar.set 1 k).set 2 u) "KICK" := by
    obtain ⟨rest, rfl⟩ := cmdIs_cons hcmd
    exact hcmd
  refine h.exec (fun a ha => ?_) ?_ fun c' hc' hreg' => ?_
  · rcases List.mem_or_eq_of_mem_set ha with ha | rfl
    · rcases List.mem_or_eq_of_mem_set ha with ha | rfl
      · exact hne a ha
      · exact hk.1
    · exact hu.1
  · refine (cmdSafe_kick hcmd').mpr fun _ a ha b hb => ?_
    rw [harg1] at ha
    rw [harg2] at hb
    cases ha
    cases hb
    rw [splitArgToSubargs_item hk.1 hk.2]
    intro i hi hget
    rw [List.mem_singleton.mp hi] at hget ⊢
    refine ⟨?_, fun _ hno => absurd hno hget⟩
    rw [h.getCh] at hget
    rw [h.chs]
    exact hkey hget
  · rw [cmdRun_kick hcmd']
    unfold kickRun registeredRun kickDone
    rw [if_neg (by simp [hreg']), if_neg (by rw [List.length_set, List.length_set]; omega),
      argD_of_getElem? harg1, argD_of_getElem? harg2, splitArgToSubargs_item hu.1 hu.2]
    show (if Op t x k then _ else t) = t
    split
    · rename_i hop
      obtain ⟨ch, hch, hx⟩ := hop
      rw [updCh_const hch, kickCh_eq_self, updCh_self hch]
      intro v hv
      rw [List.mem_singleton.mp hv, h.who]
      exact hnone ch (h.chs ▸ hch) hx
    · rfl

/-! ## Who is left -/

theorem on_updCh {f : Ch → Ch} :
    On (s.updCh k f) p a1 ↔ if a1 = k then ∃ ch, s.chs[k]? = some ch ∧ p ∈ (f ch).clis else On s p a1 := by
  unfold On
  rw [getElem?_chs_updCh]
  split
  · rename_i he
    rw [he]
    simp only [Option.map_eq_some_iff]
    constructor
    · rintro ⟨d, ⟨ch, hch, rfl⟩, hp⟩
      exact ⟨ch, hch, hp⟩
    · rintro ⟨ch, hch, hp⟩
      exact ⟨_, ⟨ch, hch, rfl⟩, hp⟩
  · rfl

/-- `PART` takes its author off the channel, and nobody else off anything. -/
theorem on_partDone : On (partDone s x a1) p k ↔ On s p k ∧ ¬ (k = a1 ∧ p = x) := by
  unfold partDone
  by_cases hon : On s x a1
  · rw [if_pos hon, on_updCh]
    by_cases hk : k = a1
    · subst hk
      simp only [if_pos, clis_drop, mem_erase_iff, true_and]
      unfold On
      constructor
      · rintro ⟨ch, hch, hp, hm⟩
        exact ⟨⟨ch, hch, hm⟩, hp⟩
      · rintro ⟨⟨ch, hch, hm⟩, hp⟩
        exact ⟨ch, hch, hp, hm⟩
    · rw [if_neg hk]
      simp [hk]
  · rw [if_neg hon]
    refine (and_iff_left_of_imp fun h => ?_).symm
    rintro ⟨rfl, rfl⟩
    exact hon h

theorem mem_clis_kickCh {who : Str → Ptr} : ∀ (targets : List Str) (ch : Ch),
    p ∈ (kickCh who ch targets).clis ↔ p ∈ ch.clis ∧ ∀ u ∈ targets, who u ≠ p
  | [], ch => by simp [kickCh]
  | u :: targets, ch => by
    unfold kickCh
    rw [mem_clis_kickCh targets, List.forall_mem_cons]
    split
    · rw [clis_drop, mem_erase_iff, and_assoc, and_left_comm, ne_comm]
    · rename_i hno
      refine and_congr_right fun hp => (and_iff_right ?_).symm
      rintro rfl
      exact hno hp

/-- `KICK` takes the targets off the channel of an operator. -/
theorem on_kickDone : On (kickDone s x a1 targets) p k ↔
    On s p k ∧ ¬ (k = a1 ∧ Op s x a1 ∧ ∃ u ∈ targets, s.getCli u = p) := by
  unfold kickDone
  by_cases hop : Op s x a1
  · rw [if_pos hop, on_updCh]
    by_cases hk : k = a1
    · subst hk
      simp only [if_pos, mem_clis_kickCh, hop, true_and]
      unfold On
      push Not
      constructor
      · rintro ⟨ch, hch, hm, hp⟩
        exact ⟨⟨ch, hch, hm⟩, hp⟩
      · rintro ⟨⟨ch, hch, hm⟩, hp⟩
        exact ⟨ch, hch, hm, hp⟩
    · rw [if_neg hk]
      simp [hk]
  · rw [if_neg hop]
    simp [hop]

/-! ## Who is told -/

/-- Everybody on a channel that is left is told. -/
theorem partLine_mem (hI : Inv s) (hx : On s x a1) (hy : On s y a1) :
    (y, partLine c a1 text) ∈ partMails s x c a1 text := by
  obtain ⟨ch, hch, hxc⟩ := hx
  obtain ⟨ch', hch', hyc⟩ := hy
  rw [hch] at hch'
  cases hch'
  have hmem : a1 ∈ s.chs := mem_chs.mpr ⟨ch, hch⟩
  have hget : s.getCh a1 ≠ none := by
    rw [getCh_self hI hmem]
    simp
  unfold partMails partMail
  rw [split_of_getCh hI hget, List.flatMap_singleton, if_neg hget, hch]
  simp only [if_pos hxc]
  exact mem_bcast.mpr ⟨hyc, rfl⟩

theorem kickMail_mem {who : Str → Ptr} (hu : u ∈ targets) (hm : who u ∈ ch.clis) (hy : y ∈ ch.clis) :
    (y, line) ∈ kickMail who x k line ch targets := by
  induction targets with
  | nil => cases hu
  | cons v targets ih =>
    unfold kickMail
    by_cases hv : who v ∈ ch.clis
    · rw [if_pos hv]
      exact List.mem_append_left _ (mem_bcast.mpr ⟨hy, rfl⟩)
    · rw [if_neg hv]
      refine List.mem_cons_of_mem _ (ih ((List.mem_cons.mp hu).resolve_left ?_))
      rintro rfl
      exact hv hm

/-- Everybody on the channel is told that one of its members is kicked. -/
theorem kickLine_mem (hI : Inv s) (hch : s.chs[a1]? = some ch) (hx : x ∈ ch.adms) (hy : y ∈ ch.clis)
    (hu : u ∈ splitArgToSubargs a2) (hm : s.getCli u ∈ ch.clis) :
    (y, kickLine c a1 a2 text) ∈ kickMails s x c a1 a2 text := by
  have hmem : a1 ∈ s.chs := mem_chs.mpr ⟨ch, hch⟩
  have hget : s.getCh a1 ≠ none := by
    rw [getCh_self hI hmem]
    simp
  unfold kickMails kickItem
  rw [split_of_getCh hI hget, List.flatMap_singleton, if_neg hget, hch]
  simp only [if_neg (not_not.mpr (hI.adm _ ch hch x hx)), if_neg (not_not.mpr hx)]
  exact kickMail_mem hu hm hy

/-- The line begins with the number of a reply. -/
def Numeric (m : Str) : Prop := ∃ n w, m = n ++ SPACE :: w ∧ n.length = 3 ∧ ∀ b ∈ n, b ∈ str "0123456789"

theorem Numeric.head (h : Numeric m) : m.head? ≠ some COLON := by
  obtain ⟨n, w, rfl, hlen, hdigits⟩ := h
  cases n with
  | nil => cases hlen
  | cons b n =>
    intro hb
    cases hb
    exact absurd (hdigits COLON (by simp)) (by decide)

theorem numeric_append {n v : Str} (h : m = n ++ [SPACE]) (hlen : n.length = 3)
    (hdigits : ∀ b ∈ n, b ∈ str "0123456789") : Numeric (m ++ v) :=
  ⟨n, v, by rw [h, List.append_assoc]; rfl, hlen, hdigits⟩

/-- What `KICK` prepares is the line that announces it, or a numeric reply. -/
theorem kickMails_lines {e : Ptr × Str} (he : e ∈ kickMails s x c a1 a2 text) :
    e.2 = kickLine c a1 a2 text ∨ Numeric e.2 := by
  have hkick : ∀ (targets : List Str) (ch : Ch) (k : Str),
      e ∈ kickMail s.getCli x k (kickLine c a1 a2 text) ch targets →
      e.2 = kickLine c a1 a2 text ∨ Numeric e.2 := by
    intro targets
    induction targets with
    | nil => exact fun _ _ h => by cases h
    | cons u targets ih =>
      intro ch k h
      unfold kickMail at h
      split at h
      · rcases List.mem_append.mp h with h | h
        · exact .inl (mem_bcast.mp h).2
        · exact ih _ k h
      · rcases List.mem_cons.mp h with rfl | h
        · right
          simp only [List.append_assoc]
          exact numeric_append (n := str "441") (by decide) rfl (by simp [str])
        · exact ih _ k h
  obtain ⟨i, -, hi⟩ := List.mem_flatMap.mp he
  unfold kickItem at hi
  repeat' split at hi
  · rw [List.mem_singleton.mp hi]
    simp only [List.append_assoc]
    exact .inr (numeric_append (n := str "403") (by decide) rfl (by simp [str]))
  · rw [List.mem_singleton.mp hi]
    simp only [List.append_assoc]
    exact .inr (numeric_append (n := str "442") (by decide) rfl (by simp [str]))
  · rw [List.mem_singleton.mp hi]
    simp only [List.append_assoc]
    exact .inr (numeric_append (n := str "482") (by decide) rfl (by simp [str]))
  · exact hkick _ _ _ hi
  · cases hi

/-- What a client is told of a command. -/
theorem told_of (hI : Inv s) (hc : s.cliAt x = some c) (hne : ∀ a ∈ ar, a ≠ [])
    (hexec : s.execCmd x ar = .ok s') (hd : s.cliAt y = some d) {d' : Cli} (hd' : s'.cliAt y = some d')
    {P : Str → Prop} :
    (∃ ms, d'.bufToSend = d.bufToSend ++ frames ms ∧ d'.hist.prepared = d.hist.prepared ++ ms ∧
      ∃ m ∈ ms, P m) ↔ ∃ m, (y, m) ∈ (cmdRun s x c ar).2 ∧ P m := by
  obtain ⟨e, he, hbuf, hprep⟩ := execCmd_inbox hI hc hne hexec hd
  rw [hd'] at he
  cases he
  constructor
  · rintro ⟨ms, -, hms, m, hm, hP⟩
    rw [hprep, List.append_cancel_left_eq] at hms
    rw [← hms] at hm
    exact ⟨m, mem_inbox.mp hm, hP⟩
  · rintro ⟨m, hm, hP⟩
    exact ⟨_, hbuf, hprep, m, mem_inbox.mpr hm, hP⟩

/-! ## `PART` -/

theorem partRun_eq (hreg : c.registered = true) (hlen : 2 ≤ ar.length) :
    partRun s x c ar = (partDone s x (argD ar 1), partMails s x c (argD ar 1) (partText ar)) := by
  unfold partRun registeredRun
  rw [if_neg (by simp [hreg]), if_neg (by omega)]

theorem sameRoster_of_chs (h : s.chs = t.chs) : SameRoster s t := fun k => by rw [h]

/-- What a command makes of the channels. -/
theorem chs_execCmd (hI : Inv s) (hc : s.cliAt x = some c) (hne : ∀ a ∈ ar, a ≠ [])
    (hexec : s.execCmd x ar = .ok s') : s'.chs = (cmdRun s x c ar).1.chs := by
  obtain ⟨-, rfl⟩ := execCmd_run hI hc hne hexec
  exact chs_sendAll

theorem on_congr (h : s.chs = t.chs) : On s p k ↔ On t p k := by
  unfold On
  rw [h]

/-- The handler of `PART`, with the arguments `ar'` of the line or those `JOIN 0` stands for: who leaves,
and what the members are told. -/
structure Parts (s s' : Server) (x : Ptr) (c : Cli) (ar' : List Str) : Prop where
  on : ∀ k p, On s' p k ↔ On s p k ∧ ¬ (k = argD ar' 1 ∧ p = x)
  told : ∀ y d d', On s x (argD ar' 1) → On s y (argD ar' 1) → s.cliAt y = some d → s'.cliAt y = some d' →
    ∃ ms, d'.bufToSend = d.bufToSend ++ frames ms ∧ d'.hist.prepared = d.hist.prepared ++ ms ∧
      ∃ m ∈ ms, m = partLine c (argD ar' 1) (partText ar')

theorem parts_of_run (hI : Inv s) (hc : s.cliAt x = some c) (hreg : c.registered = true)
    (hne : ∀ a ∈ ar, a ≠ []) (hexec : s.execCmd x ar = .ok s')
    (hlen : 2 ≤ ar'.length) (hrun : cmdRun s x c ar = partRun s x c ar') : Parts s s' x c ar' := by
  rw [partRun_eq hreg hlen] at hrun
  refine ⟨fun k p => ?_, fun y d d' hx hy hd hd' => (told_of hI hc hne hexec hd hd').mpr ⟨_, ?_, rfl⟩⟩
  · rw [on_congr (chs_execCmd hI hc hne hexec), hrun]
    exact on_partDone
  · rw [hrun]
    exact partLine_mem hI hx hy

/-- The departure is announced as it should be if the line fits. -/
theorem Parts.announced_iff (h : Parts s s' x c ar') (hkick : ¬ CmdIs ar "KICK")
    (htext : partText ar' = partText ar) (hc : s.cliAt x = some c) (hc' : ∃ c', s'.cliAt x = some c') :
    Announced s c ar s' ↔ (On s x (argD ar' 1) → Fits (partLine c (argD ar' 1) [])) := by
  constructor
  · intro hann hx
    obtain ⟨c', hc'⟩ := hc'
    have hoff : ¬ On s' x (argD ar' 1) := fun hon => ((h.on _ _).mp hon).2 ⟨rfl, rfl⟩
    obtain ⟨ms, -, -, m, -, hm⟩ := hann _ x hx hoff x c c' hx (.inl rfl) hc hc'
    unfold Announces at hm
    rw [if_neg hkick] at hm
    exact hm.2
  · intro hfits k p hon hoff y d d' hy _ hd hd'
    obtain ⟨rfl, rfl⟩ : k = argD ar' 1 ∧ p = x := by
      by_contra hno
      exact hoff ((h.on k p).mpr ⟨hon, hno⟩)
    obtain ⟨ms, hbuf, hprep, m, hm, rfl⟩ := h.told y d d' hon hy hd hd'
    refine ⟨ms, hbuf, hprep, _, hm, ?_⟩
    unfold Announces
    rw [if_neg hkick, htext]
    exact ⟨rfl, hfits hon⟩

/-- The author is still there after a command. -/
theorem author_execCmd (hI : Inv s) (hc : s.cliAt x = some c) (hne : ∀ a ∈ ar, a ≠ [])
    (hexec : s.execCmd x ar = .ok s') : ∃ c', s'.cliAt x = some c' := by
  obtain ⟨d, hd, -⟩ := execCmd_inbox hI hc hne hexec hc
  exact ⟨d, hd⟩

/-- A command that is its own single command. -/
theorem inTurn_self (h : s.execCmd x ar = .ok s') : inTurn x [ar] s = .ok s' := by
  unfold inTurn
  rw [h]
  rfl

theorem set_of_getElem? {i : Nat} (h : ar[i]? = some k) : ar.set i k = ar := by
  obtain ⟨hlt, rfl⟩ := List.getElem?_eq_some_iff.mp h
  exact List.set_getElem_self hlt

theorem part_iff (hI : Inv s) (hc : s.cliAt x = some c) (hreg : c.registered = true) (hne : ∀ a ∈ ar, a ≠ [])
    (hcmd : CmdIs ar "PART") (hlen : 2 ≤ ar.length) :
    (∃ s' t, s.execCmd x ar = .ok s' ∧ inTurn x (singles s x ar) s = .ok t ∧ ListLaw s x c ar s' t) ↔
      ListCond s x c ar := by
  have hkick : ¬ CmdIs ar "KICK" := fun h => absurd (h.unique hcmd) (by decide)
  have hjoin : ¬ CmdIs ar "JOIN" := fun h => absurd (h.unique hcmd) (by decide)
  have hparts : ∀ {s'}, s.execCmd x ar = .ok s' → Parts s s' x c ar := fun hexec =>
    parts_of_run hI hc hreg hne hexec hlen (cmdRun_part hcmd)
  constructor
  · rintro ⟨s', t, hexec, -, hlaw⟩
    refine ⟨(execCmd_run hI hc hne hexec).1, fun _ => ?_, fun h => absurd h hjoin, fun h => absurd h hkick⟩
    exact ((hparts hexec).announced_iff hkick rfl hc (author_execCmd hI hc hne hexec)).mp hlaw.announced
  · intro hcond
    have hexec := execCmd_ok hI hc hne hcond.safe
    generalize hs' : (cmdRun s x c ar).1.sendAll (cmdRun s x c ar).2 = s' at hexec
    have hann := ((hparts hexec).announced_iff hkick rfl hc (author_execCmd hI hc hne hexec)).mpr
      (hcond.part hcmd)
    obtain ⟨a1, ha1⟩ := exists_arg ar 1 (by omega)
    have harg := argD_of_getElem? ha1
    have hsafe : PartSafe s x a1 (splitArgToSubargs a1) :=
      hcond.safe.part hcmd ⟨c, hc, hreg⟩ a1 ha1
    have hsingles : singles s x ar = (splitArgToSubargs a1).map fun k => ar.set 1 k := by
      unfold singles
      rw [if_neg hkick, if_neg hjoin, harg]
    suffices hturn : ∃ t, inTurn x (singles s x ar) s = .ok t ∧ s'.chs = t.chs by
      obtain ⟨t, ht, hchs⟩ := hturn
      exact ⟨s', t, hexec, ht, fun _ => sameRoster_of_chs hchs, fun h => absurd h hjoin, hann⟩
    rw [hsingles]
    by_cases hon : On s x a1
    · -- the list is one channel
      have hself : ar.set 1 a1 = ar := set_of_getElem? ha1
      have hget : s.getCh a1 ≠ none := by
        rw [getCh_self hI (mem_of_on hon)]
        simp
      rw [split_of_getCh hI hget, List.map_singleton, hself]
      exact ⟨s', inTurn_self hexec, rfl⟩
    · -- the author leaves nothing
      have hoff : ∀ k ∈ splitArgToSubargs a1, ¬ On s x k := by
        intro k hk hon'
        rw [(hsafe.single hI hk hon').1] at hon'
        exact hon hon'
      obtain ⟨t, ht, hidle⟩ := Idle.inTurn ((splitArgToSubargs a1).map fun k => ar.set 1 k) s
        (.refl hI hc hreg) (by
          intro ar' har' u hu
          obtain ⟨k, hk, rfl⟩ := List.mem_map.mp har'
          exact hu.part hcmd hlen hne ⟨(splitArgToSubargs_part hk).1, splitArgToSubargs_comma hk⟩
            (fun hget => (hsafe k hk hget).1) (hoff k hk))
      refine ⟨t, ht, ?_⟩
      rw [hidle.chs, chs_execCmd hI hc hne hexec, cmdRun_part hcmd, partRun_eq hreg hlen, harg]
      unfold partDone
      rw [if_neg hon]

/-! ## `JOIN 0` -/

theorem zero_iff (hI : Inv s) (hc : s.cliAt x = some c) (hreg : c.registered = true) (hne : ∀ a ∈ ar, a ≠ [])
    (hcmd : CmdIs ar "JOIN") (hlen : ar.length = 2) (hz : argD ar 1 = str "0") :
    (∃ s' t, s.execCmd x ar = .ok s' ∧ inTurn x (singles s x ar) s = .ok t ∧ ListLaw s x c ar s' t) ↔
      ListCond s x c ar := by
  have hkick : ¬ CmdIs ar "KICK" := fun h => absurd (h.unique hcmd) (by decide)
  have hpart : ¬ CmdIs ar "PART" := fun h => absurd (h.unique hcmd) (by decide)
  have hset : argD (ar.set 1 (allNames s x)) 1 = allNames s x :=
    argD_of_getElem? (by rw [List.getElem?_set_self (by omega)])
  have hlen' : 2 ≤ (ar.set 1 (allNames s x)).length := by
    rw [List.length_set]
    omega
  have hrun : cmdRun s x c ar = partRun s x c (ar.set 1 (allNames s x)) := by
    rw [cmdRun_join hcmd]
    unfold execJoinRun registeredRun
    rw [if_neg (by simp [hreg]), if_neg (by omega), if_pos ⟨hlen, hz⟩]
  have htext : partText (ar.set 1 (allNames s x)) = partText ar := by
    unfold partText
    rw [List.getElem?_set_ne (by omega)]
  have hparts : ∀ {s'}, s.execCmd x ar = .ok s' → Parts s s' x c (ar.set 1 (allNames s x)) := fun hexec =>
    parts_of_run hI hc hreg hne hexec hlen' hrun
  -- a client that is on at most one channel
  have hfew : CmdSafe s x ar → chsOf s x = [] ∨ ∃ k, chsOf s x = [k] ∧ allNames s x = k := by
    intro hsafe
    obtain ⟨a1, ha1⟩ := exists_arg ar 1 (by omega)
    have hok := (joinOk_iff hc hreg ha1).mp (hsafe.join hcmd)
    rw [argD_of_getElem? ha1] at hz
    rw [if_pos ⟨hlen, hz⟩, nbChannels_eq] at hok
    change (chsOf s x).length ≤ 1 at hok
    cases hl : chsOf s x with
    | nil => exact .inl rfl
    | cons k ks =>
      rw [hl, List.length_cons] at hok
      have hnil : ks = [] := List.length_eq_zero_iff.mp (by omega)
      subst hnil
      exact .inr ⟨k, rfl, by simp [allNames, hl]⟩
  have hnames : ∀ {k}, chsOf s x = [k] → ∀ j, On s x j ↔ j = k := by
    intro k hl j
    rw [← mem_chsOf, hl, List.mem_singleton]
  have hnone : chsOf s x = [] → ∀ j, ¬ On s x j := by
    intro hl j hon
    rw [← mem_chsOf, hl] at hon
    cases hon
  constructor
  · rintro ⟨s', t, hexec, -, hlaw⟩
    have hsafe := (execCmd_run hI hc hne hexec).1
    refine ⟨hsafe, fun h => absurd h hpart, fun _ k hon => ?_, fun h => absurd h hkick⟩
    have hiff := (hparts hexec).announced_iff hkick htext hc (author_execCmd hI hc hne hexec)
    rw [hset] at hiff
    rcases hfew hsafe with hl | ⟨k', hl, hall⟩
    · exact absurd hon (hnone hl k)
    · have hk := (hnames hl k).mp hon
      rw [hall, ← hk] at hiff
      exact hiff.mp hlaw.announced hon
  · intro hcond
    have hexec := execCmd_ok hI hc hne hcond.safe
    generalize hs' : (cmdRun s x c ar).1.sendAll (cmdRun s x c ar).2 = s' at hexec
    have hiff := (hparts hexec).announced_iff hkick htext hc (author_execCmd hI hc hne hexec)
    have hann := hiff.mpr fun hon => by
      rw [hset] at hon ⊢
      exact hcond.zero hcmd _ hon
    have hon' := (hparts hexec).on
    rw [hset] at hon'
    have hsingles : singles s x ar = (chsOf s x).map fun k => [str "PART", k] := by
      unfold singles
      rw [if_neg hkick, if_pos hcmd]
    rcases hfew hcond.safe with hl | ⟨k, hl, hall⟩
    · refine ⟨s', s, hexec, by rw [hsingles, hl]; rfl, fun _ => sameRoster_of_chs ?_, fun _ k hon => ?_, hann⟩
      · rw [chs_execCmd hI hc hne hexec, hrun, partRun_eq hreg hlen', hset]
        unfold partDone
        rw [if_neg (hnone hl _)]
      · exact hnone hl k ((hon' k x).mp hon).1
    · have hexec' : s.execCmd x [str "PART", k] = .ok s' := by
        have hk : On s x k := (hnames hl k).mpr rfl
        have hname := hI.ch_name k (mem_of_on hk)
        have hcmd' : CmdIs [str "PART", k] "PART" := congrArg some rfl
        have hsafe : CmdSafe s x [str "PART", k] := by
          refine (cmdSafe_part hcmd').mpr fun _ a ha => ?_
          cases ha
          rw [split_chName hname]
          intro i hi hget
          rw [List.mem_singleton.mp hi] at hget ⊢
          exact ⟨mem_of_on hk, fun _ => hget⟩
        rw [execCmd_ok hI hc (by
          intro a ha
          rcases List.mem_cons.mp ha with rfl | ha
          · decide
          · rw [List.mem_singleton.mp ha]
            rintro rfl
            exact absurd hname.long (by decide)) hsafe, ← hs', hrun, cmdRun_part hcmd', partRun_eq hreg hlen',
          partRun_eq hreg (show 2 ≤ [str "PART", k].length from Nat.le_refl 2), hset, htext, hall]
        have htext' : partText ar = partText [str "PART", k] := by
          unfold partText
          rw [List.getElem?_eq_none (by omega)]
          rfl
        rw [htext']
        rfl
      refine ⟨s', s', hexec, by rw [hsingles, hl]; exact inTurn_self hexec', fun _ _ => rfl, fun _ j hon => ?_, hann⟩
      obtain ⟨hj, hno⟩ := (hon' j x).mp hon
      rw [hall] at hno
      exact hno ⟨(hnames hl j).mp hj, rfl⟩

/-! ## `KICK` -/

theorem kickRun_eq (hreg : c.registered = true) (hlen : 3 ≤ ar.length) :
    kickRun s x c ar = (kickDone s x (argD ar 1) (splitArgToSubargs (argD ar 2)),
      kickMails s x c (argD ar 1) (argD ar 2) (kickText ar)) := by
  unfold kickRun registeredRun
  rw [if_neg (by simp [hreg]), if_neg (by omega)]

/-- The line of `KICK` names what the command names. -/
theorem kickLine_inj {k : Str} (h : kickLine c k u text = kickLine c k a2 text) : u = a2 := by
  unfold kickLine at h
  rw [List.append_cancel_right_eq, List.append_cancel_left_eq] at h
  exact h

theorem kick_announced_iff (hI : Inv s) (hc : s.cliAt x = some c) (hreg : c.registered = true)
    (hne : ∀ a ∈ ar, a ≠ []) (hcmd : CmdIs ar "KICK") (hlen : 3 ≤ ar.length)
    (hexec : s.execCmd x ar = .ok s') :
    Announced s c ar s' ↔ ∀ ch, s.chs[argD ar 1]? = some ch → x ∈ ch.adms →
      ∀ u ∈ splitArgToSubargs (argD ar 2), s.getCli u ∈ ch.clis →
        argD ar 2 = u ∧ Fits (kickLine c (argD ar 1) u []) := by
  obtain ⟨hsafe, hs'⟩ := execCmd_run hI hc hne hexec
  have hrun : cmdRun s x c ar = _ := (cmdRun_kick hcmd).trans (kickRun_eq hreg hlen)
  have hon' : ∀ k p, On s' p k ↔ On s p k ∧ ¬ (k = argD ar 1 ∧ Op s x (argD ar 1) ∧
      ∃ u ∈ splitArgToSubargs (argD ar 2), s.getCli u = p) := fun k p => by
    rw [on_congr (chs_execCmd hI hc hne hexec), hrun]
    exact on_kickDone
  have hann : ∀ k p m, Announces s c ar k p m ↔ ∃ u ∈ splitArgToSubargs (argD ar 2), s.getCli u = p ∧
      m = kickLine c k u (kickText ar) ∧ Fits (kickLine c k u []) := fun k p m => by
    unfold Announces
    rw [if_pos hcmd]
  constructor
  · intro hall ch hch hx u hu hm
    have hkick : On s (s.getCli u) (argD ar 1) := ⟨ch, hch, hm⟩
    have hoff : ¬ On s' (s.getCli u) (argD ar 1) := fun hon =>
      ((hon' _ _).mp hon).2 ⟨rfl, ⟨ch, hch, hx⟩, u, hu, rfl⟩
    obtain ⟨d, -, hd, -⟩ := member_live hI hch hm
    obtain ⟨d', hd', -⟩ := execCmd_inbox hI hc hne hexec hd
    have htold := hall _ _ hkick hoff (s.getCli u) d d' hkick (.inl rfl) hd hd'
    rw [told_of hI hc hne hexec hd hd', hrun] at htold
    obtain ⟨m, hmem, hm'⟩ := htold
    obtain ⟨v, hv, -, rfl, hfits⟩ := (hann _ _ _).mp hm'
    -- it is the line of the whole list
    have heq : v = argD ar 2 := by
      rcases kickMails_lines hmem with h | h
      · exact kickLine_inj h
      · refine absurd ?_ h.head
        unfold kickLine
        rw [List.append_assoc, List.append_assoc, List.append_assoc, List.append_assoc]
        rfl
    subst heq
    rw [splitArgToSubargs_item (splitArgToSubargs_part hv).1 (splitArgToSubargs_comma hv),
      List.mem_singleton] at hu
    rw [hu]
    exact ⟨rfl, hfits⟩
  · intro hcond k p hon hoff y d d' hy _ hd hd'
    obtain ⟨hk, ⟨ch, hch, hx⟩, u, hu, hp⟩ : k = argD ar 1 ∧ Op s x (argD ar 1) ∧
        ∃ u ∈ splitArgToSubargs (argD ar 2), s.getCli u = p := by
      by_contra hno
      exact hoff ((hon' k p).mpr ⟨hon, hno⟩)
    have hmem : s.getCli u ∈ ch.clis := by
      obtain ⟨ch', hch', hm⟩ := hon
      rw [hk, hch] at hch'
      cases hch'
      rw [hp]
      exact hm
    have hyc : y ∈ ch.clis := by
      obtain ⟨ch', hch', hm⟩ := hy
      rw [hk, hch] at hch'
      cases hch'
      exact hm
    obtain ⟨ha2, hfits⟩ := hcond ch hch hx u hu hmem
    refine (told_of hI hc hne hexec hd hd').mpr ⟨kickLine c k u (kickText ar), ?_,
      (hann _ _ _).mpr ⟨u, hu, hp, rfl, by rw [hk]; exact hfits⟩⟩
    rw [hrun]
    rw [hk, ← ha2]
    exact kickLine_mem hI hch hx hyc hu hmem

theorem kick_iff (hI : Inv s) (hc : s.cliAt x = some c) (hreg : c.registered = true) (hne : ∀ a ∈ ar, a ≠ [])
    (hcmd : CmdIs ar "KICK") (hlen : 3 ≤ ar.length) :
    (∃ s' t, s.execCmd x ar = .ok s' ∧ inTurn x (singles s x ar) s = .ok t ∧ ListLaw s x c ar s' t) ↔
      ListCond s x c ar := by
  have hpart : ¬ CmdIs ar "PART" := fun h => absurd (h.unique hcmd) (by decide)
  have hjoin : ¬ CmdIs ar "JOIN" := fun h => absurd (h.unique hcmd) (by decide)
  constructor
  · rintro ⟨s', t, hexec, -, hlaw⟩
    exact ⟨(execCmd_run hI hc hne hexec).1, fun h => absurd h hpart, fun h => absurd h hjoin,
      fun _ => (kick_announced_iff hI hc hreg hne hcmd hlen hexec).mp hlaw.announced⟩
  · intro hcond
    have hexec := execCmd_ok hI hc hne hcond.safe
    have hrun : cmdRun s x c ar = _ := (cmdRun_kick hcmd).trans (kickRun_eq hreg hlen)
    have hchs := chs_execCmd hI hc hne hexec
    generalize (cmdRun s x c ar).1.sendAll (cmdRun s x c ar).2 = s' at hexec hchs
    have hann := (kick_announced_iff hI hc hreg hne hcmd hlen hexec).mpr (hcond.kick hcmd)
    obtain ⟨a1, ha1⟩ := exists_arg ar 1 (by omega)
    obtain ⟨a2, ha2⟩ := exists_arg ar 2 (by omega)
    have harg1 := argD_of_getElem? ha1
    have harg2 := argD_of_getElem? ha2
    have hkick := hcond.kick hcmd
    rw [harg1, harg2] at hkick hrun
    have hsafe : KickSafe s x a1 (splitArgToSubargs a2) (splitArgToSubargs a1) :=
      hcond.safe.kick hcmd ⟨c, hc, hreg⟩ a1 ha1 a2 ha2
    have hsingles : singles s x ar = (splitArgToSubargs a1).flatMap fun k =>
        (splitArgToSubargs a2).map fun u => (ar.set 1 k).set 2 u := by
      unfold singles
      rw [if_pos hcmd, harg1, harg2]
    suffices hturn : ∃ t, inTurn x (singles s x ar) s = .ok t ∧ s'.chs = t.chs by
      obtain ⟨t, ht, hsame⟩ := hturn
      exact ⟨s', t, hexec, ht, fun _ => sameRoster_of_chs hsame, fun h => absurd h hjoin, hann⟩
    rw [hsingles]
    by_cases hsome : ∃ ch, s.chs[a1]? = some ch ∧ x ∈ ch.adms ∧ ∃ u ∈ splitArgToSubargs a2, s.getCli u ∈ ch.clis
    · -- the lists are one channel and one nick
      obtain ⟨ch, hch, hx, u, hu, hm⟩ := hsome
      have hone : splitArgToSubargs a2 = [a2] := by
        rw [(hkick ch hch hx u hu hm).1]
        exact splitArgToSubargs_item (splitArgToSubargs_part hu).1 (splitArgToSubargs_comma hu)
      have hget : s.getCh a1 ≠ none := by
        rw [getCh_self hI (mem_chs.mpr ⟨ch, hch⟩)]
        simp
      rw [split_of_getCh hI hget, hone, List.flatMap_singleton, List.map_singleton, set_of_getElem? ha1,
        set_of_getElem? ha2]
      exact ⟨s', inTurn_self hexec, rfl⟩
    · -- nobody is kicked
      have hnone : ∀ k ∈ splitArgToSubargs a1, ∀ u ∈ splitArgToSubargs a2, ∀ ch, s.chs[k]? = some ch →
          x ∈ ch.adms → s.getCli u ∉ ch.clis := by
        intro k hk u hu ch hch hx hm
        rcases hsafe.single hI hk hch hx with hget | hno
        · have hitem : splitArgToSubargs a1 = [a1] := split_of_getCh hI (by rw [hget]; simp)
          rw [hitem, List.mem_singleton] at hk
          rw [hk] at hch
          exact hsome ⟨ch, hch, hx, u, hu, hm⟩
        · exact hno u hu hm
      obtain ⟨t, ht, hidle⟩ := Idle.inTurn ((splitArgToSubargs a1).flatMap fun k =>
        (splitArgToSubargs a2).map fun u => (ar.set 1 k).set 2 u) s (.refl hI hc hreg) (by
          intro ar' har' v hv
          obtain ⟨k, hk, har'⟩ := List.mem_flatMap.mp har'
          obtain ⟨u, hu, rfl⟩ := List.mem_map.mp har'
          exact hv.kick hcmd hlen hne ⟨(splitArgToSubargs_part hk).1, splitArgToSubargs_comma hk⟩
            ⟨(splitArgToSubargs_part hu).1, splitArgToSubargs_comma hu⟩ (fun hget => (hsafe k hk hget).1)
            (hnone k hk u hu))
      refine ⟨t, ht, ?_⟩
      rw [hidle.chs, hchs, hrun]
      unfold kickDone
      split
      · rename_i hop
        obtain ⟨ch, hch, hx⟩ := hop
        rw [updCh_const hch, kickCh_eq_self, updCh_self hch]
        exact fun u hu hm => hsome ⟨ch, hch, hx, u, hu, hm⟩
      · rfl

/-! ## The commands with lists -/

/-- **A command with lists of a registered client does what its single commands do in turn, and announces
each departure as they do, exactly under `ListCond`.** -/
theorem list_iff (hr : Reachable pass lfd cfg) (hc : cfg.srv.cliAt x = some c) (hreg : c.registered = true)
    (hlist : IsList (splitCmdToArgs line)) :
    (∃ s' t, cfg.srv.execCmd x (splitCmdToArgs line) = .ok s' ∧
      inTurn x (singles cfg.srv x (splitCmdToArgs line)) cfg.srv = .ok t ∧
      ListLaw cfg.srv x c (splitCmdToArgs line) s' t) ↔ ListCond cfg.srv x c (splitCmdToArgs line) := by
  have hI : Inv cfg.srv := hr.good.inv
  have hne : ∀ a ∈ splitCmdToArgs line, a ≠ [] := fun a ha => (splitCmdToArgs_arg ha).1
  rcases hlist with ⟨hcmd, hlen⟩ | ⟨hcmd, hlen⟩ | ⟨hcmd, hlen, hz⟩
  · exact part_iff hI hc hreg hne hcmd hlen
  · exact kick_iff hI hc hreg hne hcmd hlen
  · exact zero_iff hI hc hreg hne hcmd hlen hz

/-- A list of one channel. -/
theorem list_iff_one : ∃ cfg c s' t, runServer (str "2") 3 (connect 0 alice ++
    say 0 0 4 (register "al" ++ str "JOIN #a\r\n")) = .ok cfg ∧ cfg.srv.cliAt alice.addr = some c ∧
    On cfg.srv alice.addr (str "#a") ∧
    cfg.srv.execCmd alice.addr (splitCmdToArgs (str "PART #a")) = .ok s' ∧
    inTurn alice.addr (singles cfg.srv alice.addr (splitCmdToArgs (str "PART #a"))) cfg.srv = .ok t ∧
    ListLaw cfg.srv alice.addr c (splitCmdToArgs (str "PART #a")) s' t := by
  obtain ⟨cfg, hrun, hP⟩ := exists_run (str "2") 3 (connect 0 alice ++
    say 0 0 4 (register "al" ++ str "JOIN #a\r\n"))
    (fun cfg => ((cfg.srv.cliAt alice.addr).any fun c => c.registered = true ∧
      Fits (partLine c (str "#a") [])) && decide (On cfg.srv alice.addr (str "#a"))) (by decide +kernel)
  simp only [Bool.and_eq_true, Option.any_eq_true, decide_eq_true_eq] at hP
  obtain ⟨⟨c, hc, hreg, hfits⟩, hon⟩ := hP
  have hr : Reachable (str "2") 3 cfg := ⟨_, hrun⟩
  have hcmd : CmdIs (splitCmdToArgs (str "PART #a")) "PART" := by
    unfold CmdIs
    decide
  have hother : ∀ {l}, str l ≠ str "PART" → ¬ CmdIs (splitCmdToArgs (str "PART #a")) l :=
    fun hne h => hne (h.unique hcmd)
  have hsafe : CmdSafe cfg.srv alice.addr (splitCmdToArgs (str "PART #a")) := by
    refine (cmdSafe_part hcmd).mpr fun _ a1 ha1 i hi hget => ?_
    have ha : a1 = str "#a" := Option.some.inj (ha1.symm.trans (by decide))
    subst ha
    have hsplit : splitArgToSubargs (str "#a") = [str "#a"] := by decide
    rw [hsplit] at hi
    rw [List.mem_singleton.mp hi] at hget ⊢
    exact ⟨mem_of_on hon, fun _ => hget⟩
  obtain ⟨s', t, h⟩ := (list_iff hr hc hreg (.inl ⟨hcmd, by decide⟩)).mpr
    ⟨hsafe, fun _ _ => hfits, fun h => absurd h (hother (by decide)), fun h => absurd h (hother (by decide))⟩
  exact ⟨cfg, c, s', t, hrun, hc, hon, h⟩

/-- The list of two channels is not the name of a channel. -/
theorem part_list_fails : ¬ ∀ (pass : Str) (lfd : Nat) (cfg : Config), Reachable pass lfd cfg →
    ∀ (x : Ptr) (c : Cli), cfg.srv.cliAt x = some c → c.registered = true → ∀ line : Str,
      IsList (splitCmdToArgs line) →
      ∃ s' t, cfg.srv.execCmd x (splitCmdToArgs line) = .ok s' ∧
        inTurn x (singles cfg.srv x (splitCmdToArgs line)) cfg.srv = .ok t ∧
        ListLaw cfg.srv x c (splitCmdToArgs line) s' t := by
  intro hall
  obtain ⟨cfg, hrun, hP⟩ := exists_run (str "2") 3 (connect 0 alice ++
    say 0 0 4 (register "al" ++ str "JOIN #a\r\n"))
    (fun cfg => ((cfg.srv.cliAt alice.addr).any fun c => c.registered = true) &&
      decide (On cfg.srv alice.addr (str "#a")) && decide (cfg.srv.getCh (str "#a,#b") = none))
    (by decide +kernel)
  simp only [Bool.and_eq_true, Option.any_eq_true, decide_eq_true_eq] at hP
  obtain ⟨⟨⟨c, hc, hreg⟩, hon⟩, hnone⟩ := hP
  have hr : Reachable (str "2") 3 cfg := ⟨_, hrun⟩
  have hcmd : CmdIs (splitCmdToArgs (str "PART #a,#b")) "PART" := by
    unfold CmdIs
    decide
  have hlist : IsList (splitCmdToArgs (str "PART #a,#b")) := .inl ⟨hcmd, by decide⟩
  have hcond := (part_iff hr.good.inv hc hreg (fun a ha => (splitCmdToArgs_arg ha).1) hcmd (by decide)).mp
    (hall _ _ cfg hr _ c hc hreg _ hlist)
  have hsafe := hcond.safe.part hcmd ⟨c, hc, hreg⟩ (str "#a,#b") (by decide)
  have hget : cfg.srv.getCh (str "#a") ≠ none := by
    rw [getCh_self hr.good.inv (mem_of_on hon)]
    simp
  exact (hsafe (str "#a") (by decide) hget).2 hon hnone

end FtIrc
