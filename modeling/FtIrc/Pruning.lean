import FtIrc.Admission

/-!
# Channels without members

A channel that has lost its last member stays until the next `eraseUnusedChs`.  `Pruned u v`: the state `v`
is `u` without such channels, up to the buffers of the clients.  A command does the same to the channels
with members in both (`Pruned.cmdRun`), except a `JOIN` that looks up a channel without members (`Rejoins`):
it creates the channel in `v`, and enters the old one in `u` (`Pruned.disagree`).
-/

namespace FtIrc

open Std Outcome Server

variable {u v : Server} {x p q : Ptr} {c d : Cli} {ar : List Str} {k n name a1 : Str} {ch : Ch}
  {joined : List Str} {o : Option Ch}

/-! ## The relation -/

/-- The channel at an entry, if it has members. -/
def used (o : Option Ch) : Option Ch := o.filter fun ch => ch.size ≠ 0

/-- A record without its buffers and its history. -/
def Cli.core (c : Cli) : Cli := { c with bufToSend := [], bufRecv := [], hist := ⟨[], [], []⟩ }

/-- `v` is `u` without the channels that have no members. -/
structure Pruned (u v : Server) : Prop where
  cliAt : ∀ p, (v.cliAt p).map Cli.core = (u.cliAt p).map Cli.core
  getCli : v.getCli = u.getCli
  chs : ∀ k : Str, v.chs[k]? = used u.chs[k]?

/-- The states have the same channels, but for those without members. -/
def SameUsed (u v : Server) : Prop := ∀ k : Str, used u.chs[k]? = used v.chs[k]?

theorem size_eq_zero (ch : Ch) : ch.size = 0 ↔ ∀ p, p ∉ ch.clis := size_eq_zero_iff

theorem used_eq_some : used o = some ch ↔ o = some ch ∧ ch.size ≠ 0 := by
  simp only [used, Option.filter_eq_some_iff, decide_eq_true_eq]

theorem used_of_mem (hp : p ∈ ch.clis) : used (some ch) = some ch :=
  used_eq_some.mpr ⟨rfl, fun h => (size_eq_zero ch).mp h p hp⟩

@[simp] theorem used_used (o : Option Ch) : used (used o) = used o := by
  simp only [used, Option.filter_filter, Bool.and_self]

theorem core_nick (h : d.core = c.core) : d.nick = c.nick := show d.core.nick = c.core.nick from congrArg Cli.nick h

theorem core_invits (h : d.core = c.core) : d.invits = c.invits := show d.core.invits = c.core.invits from congrArg Cli.invits h

theorem core_registered (h : d.core = c.core) : d.registered = c.registered :=
  show d.core.registered = c.core.registered from congrArg Cli.registered h

/-- What is done to one channel, the same in both, leaves them with the same channels. -/
theorem SameUsed.updCh (h : SameUsed u v) (hk : u.chs[k]? = v.chs[k]?) (g : Ch → Ch) :
    SameUsed (u.updCh k g) (v.updCh k g) := by
  intro j
  rw [getElem?_chs_updCh, getElem?_chs_updCh]
  split
  · rename_i hj
    rw [hj, hk]
  · exact h j

namespace Pruned

variable (h : Pruned u v)

include h

theorem sameUsed : SameUsed u v := fun k => by rw [h.chs, used_used]

theorem author (hc : u.cliAt x = some c) : ∃ d, v.cliAt x = some d ∧ d.core = c.core := by
  have hx := h.cliAt x
  rw [hc, Option.map_some, Option.map_eq_some_iff] at hx
  exact hx

theorem author' (hd : v.cliAt x = some d) : ∃ c, u.cliAt x = some c ∧ c.core = d.core := by
  have hx := h.cliAt x
  rw [hd, Option.map_some, eq_comm, Option.map_eq_some_iff] at hx
  exact hx

theorem isReg (hx : IsReg v x) : IsReg u x := by
  obtain ⟨d, hd, hreg⟩ := hx
  obtain ⟨c, hc, hcore⟩ := h.author' hd
  exact ⟨c, hc, (core_registered hcore).trans hreg⟩

theorem of_some (hch : v.chs[k]? = some ch) : u.chs[k]? = some ch ∧ ch.size ≠ 0 := by
  rw [h.chs] at hch
  exact used_eq_some.mp hch

/-- A channel with a member is there in both. -/
theorem same (hch : u.chs[k]? = some ch) (hp : p ∈ ch.clis) : v.chs[k]? = some ch := by
  rw [h.chs, hch, used_of_mem hp]

theorem mem (hk : k ∈ v.chs) : k ∈ u.chs := by
  obtain ⟨ch, hch⟩ := mem_chs.mp hk
  exact mem_chs.mpr ⟨ch, (h.of_some hch).1⟩

theorem on : On v p k ↔ On u p k := by
  constructor
  · rintro ⟨ch, hch, hp⟩
    exact ⟨ch, (h.of_some hch).1, hp⟩
  · rintro ⟨ch, hch, hp⟩
    exact ⟨ch, h.same hch hp, hp⟩

theorem op (hI : Inv u) : Op v p k ↔ Op u p k := by
  constructor
  · rintro ⟨ch, hch, hp⟩
    exact ⟨ch, (h.of_some hch).1, hp⟩
  · rintro ⟨ch, hch, hp⟩
    exact ⟨ch, h.same hch (hI.adm k ch hch p hp), hp⟩

theorem nbChannels : v.nbChannels x = u.nbChannels x :=
  Nat.le_antisymm (nbChannels_le_of_on fun _ => h.on.mp) (nbChannels_le_of_on fun _ => h.on.mpr)

/-- Whoever is on one channel at most is on the same one. -/
theorem allNames (hone : u.nbChannels x ≤ 1) : allNames v x = allNames u x := by
  have hmem : ∀ k, k ∈ chsOf v x ↔ k ∈ chsOf u x := fun k => by
    rw [mem_chsOf, mem_chsOf]
    exact h.on
  have hlen : (chsOf v x).length = (chsOf u x).length := by
    have hnb := h.nbChannels (x := x)
    rw [nbChannels_eq, nbChannels_eq] at hnb
    exact hnb
  rw [nbChannels_eq] at hone
  have hsame : chsOf v x = chsOf u x := by
    match hu : chsOf u x with
    | [] => exact List.eq_nil_iff_forall_not_mem.mpr fun k hk => by simpa [hu] using (hmem k).mp hk
    | [k] =>
      rw [hu] at hlen
      obtain ⟨j, hj⟩ := List.length_eq_one_iff.mp hlen
      have hin := (hmem j).mp (by rw [hj]; exact List.mem_singleton.mpr rfl)
      rw [hu, List.mem_singleton] at hin
      rw [hj, hin]
    | _ :: _ :: _ =>
      have hlong : (chsOf u x).length ≤ 1 := hone
      rw [hu, List.length_cons, List.length_cons] at hlong
      omega
  unfold FtIrc.allNames
  rw [hsame]

/-! ## Names -/

/-- A name that is a key, and is found, is found as a key. -/
theorem kept (hI : Inv u) (hn : n ∈ u.chs) (hget : v.getCh n ≠ none) : n ∈ v.chs := by
  obtain ⟨k, hk, hlow⟩ := getCh_ne_none hget
  rw [← hI.ch_inj k (h.mem hk) n hn hlow]
  exact hk

theorem getCh_ne_none (hget : v.getCh n ≠ none) : u.getCh n ≠ none := by
  obtain ⟨k, hk, hlow⟩ := FtIrc.getCh_ne_none hget
  exact fun hnone => getCh_none_iff.mp hnone k (h.mem hk) hlow

theorem keySpelled (hI : Inv u) (hn : KeySpelled u n) : KeySpelled v n :=
  fun hget => h.kept hI (hn (h.getCh_ne_none hget)) hget

theorem partSafe (hI : Inv u) (hs : PartSafe u x a1 (splitArgToSubargs a1)) :
    PartSafe v x a1 (splitArgToSubargs a1) := by
  intro i hi hget
  obtain ⟨hmem, hon⟩ := hs i hi (h.getCh_ne_none hget)
  refine ⟨h.kept hI hmem hget, fun ho => ?_⟩
  -- the list names a channel, so it is the item
  have hsplit := split_of_getCh hI (hon (h.on.mp ho))
  rw [hsplit, List.mem_singleton] at hi
  exact hi ▸ hget

theorem kickSafe (hI : Inv u) {targets : List Str} (hs : KickSafe u x a1 targets (splitArgToSubargs a1)) :
    KickSafe v x a1 targets (splitArgToSubargs a1) := by
  intro i hi hget
  obtain ⟨hmem, hno⟩ := hs i hi (h.getCh_ne_none hget)
  refine ⟨h.kept hI hmem hget, fun hop ha1 t ht hnames => ?_⟩
  obtain ⟨ch, q, d, hch, hq, hd, hn⟩ := hnames
  obtain ⟨c, hc, hcore⟩ := h.author' hd
  refine hno ((h.op hI).mp hop) ?_ t ht
    ⟨ch, q, c, (h.of_some hch).1, hq, hc, by rw [core_nick hcore]; exact hn⟩
  by_contra hget'
  have hsplit := split_of_getCh hI hget'
  rw [hsplit, List.mem_singleton] at hi
  exact hget (hi ▸ ha1)

theorem privmsgSafe (hI : Inv u) {tos : List Str} (hs : PrivmsgSafe u tos) : PrivmsgSafe v tos := by
  intro t ht hhash hlow
  have hlow' := h.mem hlow
  have hmem := hs t ht hhash hlow'
  have heq : toLower t = t := hI.ch_inj _ hlow' _ hmem (toLower_idem t)
  rw [← heq]
  exact hlow

end Pruned

/-! ## The names that JOIN looks up -/

/-- The channel is there, without members. -/
def Unused (s : Server) (k : Str) : Prop := ∃ ch, s.chs[k]? = some ch ∧ ch.size = 0

/-- The names whose channels the loop of `JOIN` looks up, after it has joined `joined`. -/
def lookups (s : Server) (x : Ptr) (me : Cli) : List Str → List Str → List Str → List Str
  | _, [], _ => []
  | joined, name :: names, passes =>
    if MAX_CHS_PER_USER - 1 < s.nbChannels x + joined.length then []
    else if badName name ∨ On s x name ∨ name ∈ joined then lookups s x me joined names passes
    else if Admitted s me name (passes.headD []) then
      name :: lookups s x me (name :: joined) names passes.tail
    else name :: lookups s x me joined names passes.tail

/-- A `JOIN` looks up a channel without members. -/
def Rejoins (s : Server) (x : Ptr) (ar : List Str) : Prop := ∃ c, s.cliAt x = some c ∧ CmdIs ar "JOIN" ∧
  GoesThrough c ar ∧ ∃ k ∈ lookups s x c [] (splitArgToSubargs (argD ar 1)) (joinKeys ar), Unused s k

/-- What is joined has been looked up. -/
theorem mem_lookups_of_joins : ∀ (names passes joined : List Str), k ∈ joins u x c joined names passes →
    k ∈ joined ∨ k ∈ lookups u x c joined names passes
  | [], _, _, hk => .inl hk
  | name :: names, passes, joined, hk => by
    have hrest := fun passes joined => mem_lookups_of_joins names passes joined
    unfold joins at hk
    unfold lookups
    split at hk
    · exact .inl hk
    · rename_i hmany
      rw [if_neg hmany]
      split at hk
      · rename_i hskip
        rw [if_pos hskip]
        exact hrest passes joined hk
      · rename_i hskip
        rw [if_neg hskip]
        split at hk
        · rename_i hin
          rw [if_pos hin]
          rcases hrest passes.tail (name :: joined) hk with hj | hl
          · rcases List.mem_cons.mp hj with rfl | hj
            · exact .inr (List.mem_cons_self ..)
            · exact .inl hj
          · exact .inr (List.mem_cons_of_mem _ hl)
        · rename_i hin
          rw [if_neg hin]
          exact (hrest passes.tail joined hk).imp_right (List.mem_cons_of_mem _)

namespace Pruned

variable (h : Pruned u v) (hcore : d.core = c.core)

include h

/-- Any other channel, and any missing one, is the same in both. -/
theorem same_of_used (hk : ¬ Unused u k) : v.chs[k]? = u.chs[k]? := by
  rw [h.chs]
  cases hch : u.chs[k]? with
  | none => rfl
  | some ch => exact used_eq_some.mpr ⟨rfl, fun h0 => hk ⟨ch, hch, h0⟩⟩

theorem none_of_unused (hk : Unused u k) : v.chs[k]? = none := by
  obtain ⟨ch, hch, h0⟩ := hk
  rw [h.chs, hch]
  simp only [used, Option.filter_some, h0, ne_eq, not_true, decide_false, Bool.false_eq_true, if_false]

include hcore

theorem admitted (hk : ¬ Unused u name) (pass : Str) : Admitted v d name pass ↔ Admitted u c name pass := by
  have hadmits : ∀ ch, Admits d ch name pass ↔ Admits c ch name pass := fun ch => by
    unfold Admits
    rw [core_invits hcore]
  unfold Admitted
  simp only [h.same_of_used hk, hadmits]

theorem joins_eq : ∀ (names passes joined : List Str),
    (∀ k ∈ lookups u x c joined names passes, ¬ Unused u k) →
    joins v x d joined names passes = joins u x c joined names passes
  | [], _, _, _ => rfl
  | name :: names, passes, joined, hall => by
    have hrest := fun passes joined => joins_eq names passes joined
    unfold lookups at hall
    unfold joins
    rw [h.nbChannels]
    by_cases hmany : MAX_CHS_PER_USER - 1 < u.nbChannels x + joined.length
    · rw [if_pos hmany, if_pos hmany]
    rw [if_neg hmany] at hall
    rw [if_neg hmany, if_neg hmany]
    simp only [h.on]
    by_cases hskip : badName name = true ∨ On u x name ∨ name ∈ joined
    · rw [if_pos hskip] at hall
      rw [if_pos hskip, if_pos hskip]
      exact hrest passes joined hall
    rw [if_neg hskip] at hall
    rw [if_neg hskip, if_neg hskip]
    by_cases hin : Admitted u c name (passes.headD [])
    · rw [if_pos hin, List.forall_mem_cons] at hall
      rw [if_pos hin, if_pos ((h.admitted hcore hall.1 _).mpr hin)]
      exact hrest passes.tail (name :: joined) hall.2
    · rw [if_neg hin, List.forall_mem_cons] at hall
      rw [if_neg hin, if_neg (mt (h.admitted hcore hall.1 _).mp hin)]
      exact hrest passes.tail joined hall.2

theorem joinSafe : ∀ (names passes joined : List Str),
    (∀ k ∈ lookups u x c joined names passes, ¬ Unused u k) → JoinSafe u x c joined names passes →
    JoinSafe v x d joined names passes
  | [], _, _, _, _ => trivial
  | name :: names, passes, joined, hall, hsafe => by
    have hrest := fun passes joined => joinSafe names passes joined
    unfold lookups at hall
    unfold JoinSafe at hsafe ⊢
    rw [h.nbChannels]
    by_cases hmany : MAX_CHS_PER_USER - 1 < u.nbChannels x + joined.length
    · rw [if_pos hmany]
      trivial
    rw [if_neg hmany] at hall hsafe
    rw [if_neg hmany]
    by_cases hbad : badName name = true
    · rw [if_pos (.inl hbad)] at hall
      rw [if_pos hbad] at hsafe ⊢
      exact hrest passes joined hall hsafe
    rw [if_neg hbad] at hsafe ⊢
    obtain ⟨hspell, hsafe⟩ := hsafe
    refine ⟨fun k hk => hspell k ?_, ?_⟩
    · rw [List.mem_append, ExtTreeMap.mem_keys] at hk ⊢
      exact hk.imp_left h.mem
    simp only [h.on]
    by_cases hon : On u x name ∨ name ∈ joined
    · rw [if_pos (.inr hon)] at hall
      rw [if_pos hon] at hsafe ⊢
      exact hrest passes joined hall hsafe
    rw [if_neg (fun ho => hon (ho.resolve_left hbad))] at hall
    rw [if_neg hon] at hsafe ⊢
    by_cases hin : Admitted u c name (passes.headD [])
    · rw [if_pos hin, List.forall_mem_cons] at hall
      rw [if_pos hin] at hsafe
      rw [if_pos ((h.admitted hcore hall.1 _).mpr hin)]
      exact hrest passes.tail (name :: joined) hall.2 hsafe
    · rw [if_neg hin, List.forall_mem_cons] at hall
      rw [if_neg hin] at hsafe
      rw [if_neg (mt (h.admitted hcore hall.1 _).mp hin)]
      exact hrest passes.tail joined hall.2 hsafe

/-- The first channel without members that is looked up is created where it is missing. -/
theorem exists_joined : ∀ (names passes joined : List Str),
    (∃ k ∈ lookups u x c joined names passes, Unused u k) →
    ∃ k ∈ joins v x d joined names passes, Unused u k
  | [], _, _, hk => by
    obtain ⟨k, hk, -⟩ := hk
    cases hk
  | name :: names, passes, joined, hex => by
    have hrest := fun passes joined => exists_joined names passes joined
    unfold lookups at hex
    unfold joins
    rw [h.nbChannels]
    by_cases hmany : MAX_CHS_PER_USER - 1 < u.nbChannels x + joined.length
    · rw [if_pos hmany] at hex
      obtain ⟨k, hk, -⟩ := hex
      cases hk
    rw [if_neg hmany] at hex
    rw [if_neg hmany]
    simp only [h.on]
    by_cases hskip : badName name = true ∨ On u x name ∨ name ∈ joined
    · rw [if_pos hskip] at hex ⊢
      exact hrest passes joined hex
    rw [if_neg hskip] at hex ⊢
    by_cases hun : Unused u name
    · have hnew : Admitted v d name (passes.headD []) := by
        unfold Admitted
        rw [h.none_of_unused hun]
        rfl
      rw [if_pos hnew]
      exact ⟨name, subset_joins _ _ _ _ (List.mem_cons_self ..), hun⟩
    · have hlater : ∀ l : List Str, (∃ k ∈ name :: l, Unused u k) → ∃ k ∈ l, Unused u k := by
        rintro l ⟨k, hk, hk'⟩
        rcases List.mem_cons.mp hk with rfl | hk
        · exact absurd hk' hun
        · exact ⟨k, hk, hk'⟩
      by_cases hin : Admitted u c name (passes.headD [])
      · rw [if_pos hin] at hex
        rw [if_pos ((h.admitted hcore hun _).mpr hin)]
        exact hrest passes.tail (name :: joined) (hlater _ hex)
      · rw [if_neg hin] at hex
        rw [if_neg (mt (h.admitted hcore hun _).mp hin)]
        exact hrest passes.tail joined (hlater _ hex)

end Pruned

/-! ## One command in both -/

theorem optionReply_congr {who : Str → Ptr} {opt val : Str} (hn : d.nick = c.nick) :
    optionReply who d ar opt val ch = optionReply who c ar opt val ch := by
  unfold optionReply
  rw [hn]

theorem modeCh_congr {who : Str → Ptr} (hn : d.nick = c.nick) (os : List (Str × Str)) (ch : Ch) :
    modeCh who d ar os ch = modeCh who c ar os ch := by
  induction os generalizing ch with
  | nil => rfl
  | cons o os ih =>
    unfold modeCh optionDone
    rw [optionReply_congr hn, ih]

theorem chs_inviteRun : (inviteRun u x c ar).1.chs = u.chs := by
  unfold inviteRun registeredRun inviteDone
  split
  · rfl
  split
  · rfl
  · dsimp only
    split <;> rfl

theorem chs_privmsgRun : (privmsgRun u x c ar).1.chs = u.chs := by
  unfold privmsgRun registeredRun
  repeat' split
  all_goals rfl

theorem chs_noticeRun : (noticeRun u x c ar).1.chs = u.chs := by
  unfold noticeRun
  split <;> rfl

theorem chs_passMark : (passMark u c ar).chs = u.chs := by
  unfold passMark
  split <;> rfl

theorem SameUsed.of_chs {u' v' : Server} (h : SameUsed u v) (hu : u'.chs = u.chs) (hv : v'.chs = v.chs) :
    SameUsed u' v' := by
  intro k
  rw [hu, hv]
  exact h k

theorem SameUsed.registeredRun {r r' : Server × Mail} (h : SameUsed u v) (hreg : d.registered = c.registered)
    (hr : SameUsed r.1 r'.1) : SameUsed (registeredRun u x c r).1 (registeredRun v x d r').1 := by
  unfold FtIrc.registeredRun
  rw [hreg]
  split
  · exact h
  · exact hr

namespace Pruned

variable (h : Pruned u v) (hcore : d.core = c.core)

include h

theorem partDone : SameUsed (partDone u x a1) (partDone v x a1) := by
  unfold FtIrc.partDone
  by_cases hon : On u x a1
  · rw [if_pos hon, if_pos (h.on.mpr hon)]
    obtain ⟨ch, hch, hx⟩ := hon
    exact h.sameUsed.updCh (hch.trans (h.same hch hx).symm) _
  · rw [if_neg hon, if_neg (mt h.on.mp hon)]
    exact h.sameUsed

theorem topicDone (text : Option Str) : SameUsed (topicDone u x a1 text) (topicDone v x a1 text) := by
  unfold FtIrc.topicDone
  cases text with
  | none => exact h.sameUsed
  | some a2 =>
    dsimp only
    by_cases hmay : (u.chs[a1]?).any (fun ch => MayTopic x ch) = true
    · obtain ⟨ch, hch, hx⟩ := (Option.any_eq_true _ _).mp hmay
      have hsame := h.same hch (of_decide_eq_true hx).1
      rw [if_pos hmay, hsame, if_pos (by simpa using hx)]
      exact h.sameUsed.updCh (hch.trans hsame.symm) _
    · rw [if_neg hmay, if_neg]
      · exact h.sameUsed
      · intro hmay'
        obtain ⟨ch, hch, hx⟩ := (Option.any_eq_true _ _).mp hmay'
        rw [(h.of_some hch).1] at hmay
        exact hmay (by simpa using hx)

variable (hI : Inv u)

include hI

theorem kickDone (targets : List Str) : SameUsed (kickDone u x a1 targets) (kickDone v x a1 targets) := by
  unfold FtIrc.kickDone
  rw [h.getCli]
  by_cases hop : Op u x a1
  · rw [if_pos hop, if_pos ((h.op hI).mpr hop)]
    obtain ⟨ch, hch, hx⟩ := hop
    exact h.sameUsed.updCh (hch.trans (h.same hch (hI.adm a1 ch hch x hx)).symm) _
  · rw [if_neg hop, if_neg (mt (h.op hI).mp hop)]
    exact h.sameUsed

include hcore

omit hI in
theorem partRun : SameUsed (partRun u x c ar).1 (partRun v x d ar).1 := by
  refine h.sameUsed.registeredRun (core_registered hcore) ?_
  split
  · exact h.sameUsed
  · exact h.partDone

theorem modeDone : SameUsed (modeDone u x c ar) (modeDone v x d ar) := by
  unfold FtIrc.modeDone
  rw [h.getCli]
  simp only [modeCh_congr (core_nick hcore)]
  by_cases hop : Op u x (argD ar 1)
  · rw [if_pos hop, if_pos ((h.op hI).mpr hop)]
    obtain ⟨ch, hch, hx⟩ := hop
    exact h.sameUsed.updCh (hch.trans (h.same hch (hI.adm _ ch hch x hx)).symm) _
  · rw [if_neg hop, if_neg (mt (h.op hI).mp hop)]
    exact h.sameUsed

variable (hc : u.cliAt x = some c) (hno : ¬ Rejoins u x ar)

include hc hno

/-- **What goes well in `u` goes well in `v`.** -/
theorem cmdSafe (hd : v.cliAt x = some d) (hs : CmdSafe u x ar) : CmdSafe v x ar := by
  have hnamed : NamedOk u x ar → NamedOk v x ar := fun hok hreg a ha =>
    h.keySpelled hI (hok (h.isReg hreg) a ha)
  refine ⟨?privmsg, ?join, ?part, ?kick, ?invite, fun hcmd => hnamed (hs.topic hcmd),
    fun hcmd hall => hnamed (hs.mode hcmd hall)⟩
  case privmsg =>
    intro hcmd hreg a ha hlen hfew
    exact h.privmsgSafe hI (hs.privmsg hcmd (h.isReg hreg) a ha hlen hfew)
  case join =>
    intro hcmd d' hd' hreg a ha
    rw [hd] at hd'
    cases hd'
    have hreg' := (core_registered hcore).symm.trans hreg
    have hok := hs.join hcmd c hc hreg' a ha
    rw [h.nbChannels]
    by_cases hz : ar.length = 2 ∧ a = str "0"
    · rw [if_pos hz] at hok ⊢
      exact hok
    · rw [if_neg hz] at hok ⊢
      refine fun hfew => h.joinSafe hcore _ _ _ (fun k hk hun => hno ?_) (hok hfew)
      have harg := argD_of_getElem? ha
      have hlt := (List.getElem?_eq_some_iff.mp ha).1
      exact ⟨c, hc, hcmd, ⟨hreg', hlt, by rw [harg]; exact hz, by rw [harg]; exact hfew⟩,
        k, by rw [harg]; exact hk, hun⟩
  case part =>
    intro hcmd hreg a ha
    exact h.partSafe hI (hs.part hcmd (h.isReg hreg) a ha)
  case kick =>
    intro hcmd hreg a ha a2 ha2
    exact h.kickSafe hI (hs.kick hcmd (h.isReg hreg) a ha a2 ha2)
  case invite =>
    intro hcmd hreg a ha hto a2 ha2
    rw [h.getCli] at hto
    exact h.keySpelled hI (hs.invite hcmd (h.isReg hreg) a ha hto a2 ha2)

omit hI hc hno in
/-- The names that `JOIN` joins. -/
theorem joinNames (hall : GoesThrough c ar →
      ∀ k ∈ lookups u x c [] (splitArgToSubargs (argD ar 1)) (joinKeys ar), ¬ Unused u k) :
    joinNames v x d ar = joinNames u x c ar := by
  by_cases hgo : GoesThrough c ar
  · have hgo' : GoesThrough d ar := ⟨(core_registered hcore).trans hgo.1, hgo.2⟩
    rw [joinNames_eq hgo, joinNames_eq hgo', h.joins_eq hcore _ _ _ (hall hgo)]
  · have hnone : ∀ (s : Server) (e : Cli), ¬ GoesThrough e ar → FtIrc.joinNames s x e ar = [] := fun s e he =>
      List.eq_nil_iff_forall_not_mem.mpr fun k hk => he (goesThrough_of_mem hk)
    rw [hnone u c hgo, hnone v d fun hgo' => hgo ⟨(core_registered hcore).symm.trans hgo'.1, hgo'.2⟩]

theorem execJoinRun (hI' : Inv v) (hd : v.cliAt x = some d) (hcmd : CmdIs ar "JOIN") (hok : JoinOk u x ar)
    (hok' : JoinOk v x ar) : SameUsed (execJoinRun u x c ar).1 (execJoinRun v x d ar).1 := by
  by_cases hpart : PartCmd ar
  · -- the line leaves all channels
    obtain ⟨hlen, hz⟩ := (partCmd_join_iff hcmd).mp hpart
    unfold FtIrc.execJoinRun
    cases hreg : c.registered with
    | false =>
      unfold registeredRun
      rw [if_pos hreg, if_pos ((core_registered hcore).trans hreg)]
      exact h.sameUsed
    | true =>
      obtain ⟨a, ha⟩ := exists_arg ar 1 (by omega)
      have hone := (joinOk_iff hc hreg ha).mp hok
      rw [argD_of_getElem? ha] at hz
      rw [if_pos ⟨hlen, hz⟩] at hone
      refine h.sameUsed.registeredRun (core_registered hcore) ?_
      rw [argD_of_getElem? ha, if_neg (by omega), if_pos ⟨hlen, hz⟩, if_neg (by omega), if_pos ⟨hlen, hz⟩,
        h.allNames hone]
      exact h.partRun hcore
  · have hafter := afterJoin_execJoinRun hI hc hcmd hpart hok
    have hafter' := afterJoin_execJoinRun hI' hd hcmd hpart hok'
    have hlooked : GoesThrough c ar →
        ∀ k ∈ lookups u x c [] (splitArgToSubargs (argD ar 1)) (joinKeys ar), ¬ Unused u k :=
      fun hgo k hk hun => hno ⟨c, hc, hcmd, hgo, k, hk, hun⟩
    rw [h.joinNames hcore hlooked] at hafter'
    intro k
    rw [hafter.chs, hafter'.chs]
    by_cases hk : k ∈ FtIrc.joinNames u x c ar
    · have hgo := goesThrough_of_mem hk
      rw [if_pos hk, if_pos hk, h.same_of_used]
      rw [joinNames_eq hgo] at hk
      exact hlooked hgo k ((mem_lookups_of_joins _ _ _ hk).resolve_left List.not_mem_nil)
    · rw [if_neg hk, if_neg hk]
      exact h.sameUsed k

/-- **A command does the same to the channels with members**, unless it is a `JOIN` that looks up one
without. -/
theorem cmdRun (hI' : Inv v) (hd : v.cliAt x = some d) (hs : CmdSafe u x ar) :
    SameUsed (cmdRun u x c ar).1 (cmdRun v x d ar).1 := by
  have hs' := h.cmdSafe hcore hI hc hno hd hs
  have hreg := core_registered hcore
  refine cmdRun_cases₂ (P := fun r r' => SameUsed r.1 r'.1) (fun _ => h.sameUsed)
    (fun _ => h.sameUsed.of_chs chs_passMark chs_passMark) (fun _ => h.sameUsed) (fun _ => h.sameUsed)
    (fun _ => h.sameUsed) (fun _ => h.sameUsed) (fun _ => h.sameUsed) (fun _ => h.sameUsed)
    (fun _ => h.sameUsed.of_chs chs_privmsgRun chs_privmsgRun)
    (fun _ => h.sameUsed.of_chs chs_noticeRun chs_noticeRun)
    (fun hcmd => h.execJoinRun hcore hI hc hno hI' hd hcmd (hs.join hcmd) (hs'.join hcmd))
    (fun _ => h.partRun hcore) (fun _ => ?mode) (fun _ => ?topic)
    (fun _ => h.sameUsed.of_chs chs_inviteRun chs_inviteRun) (fun _ => ?kick) (fun _ _ _ => h.sameUsed)
  case mode =>
    unfold modeRun
    split
    · exact h.sameUsed
    split
    · exact h.sameUsed.registeredRun hreg (h.modeDone hcore hI)
    · exact h.sameUsed
  case topic =>
    refine h.sameUsed.registeredRun hreg ?_
    split
    · exact h.sameUsed
    · exact h.topicDone _
  case kick =>
    refine h.sameUsed.registeredRun hreg ?_
    split
    · exact h.sameUsed
    · exact h.kickDone hI _

omit hno in
/-- **Such a `JOIN` does not**: what it creates in `v` has an operator. -/
theorem disagree (hI' : Inv v) (hd : v.cliAt x = some d) (hre : Rejoins u x ar) (hs : CmdSafe u x ar)
    (hs' : CmdSafe v x ar) : ¬ SameUsed (FtIrc.cmdRun u x c ar).1 (FtIrc.cmdRun v x d ar).1 := by
  obtain ⟨c', hc', hcmd, hgo, hlooked⟩ := hre
  rw [hc] at hc'
  cases hc'
  have hgo' : GoesThrough d ar := ⟨(core_registered hcore).trans hgo.1, hgo.2⟩
  have hpart : ¬ PartCmd ar := fun hp => hgo.2.2.1 ((partCmd_join_iff hcmd).mp hp)
  obtain ⟨k, hk, hun⟩ := h.exists_joined hcore _ _ _ hlooked
  have hafter := afterJoin_execJoinRun hI hc hcmd hpart (hs.join hcmd)
  have hafter' := afterJoin_execJoinRun hI' hd hcmd hpart (hs'.join hcmd)
  rw [joinNames_eq hgo'] at hafter'
  rw [cmdRun_join hcmd, cmdRun_join hcmd]
  intro hagree
  -- in `v` the author is the operator of a new channel
  have hnew : used (FtIrc.execJoinRun v x d ar).1.chs[k]? = some ((Ch.new x).enter x) := by
    rw [hafter'.chs, if_pos hk, h.none_of_unused hun]
    exact used_of_mem (p := x) (mem_insert_iff.mpr (.inl rfl))
  have hold := (hagree k).trans hnew
  rw [hafter.chs, used_eq_some] at hold
  obtain ⟨ch, hch, h0⟩ := hun
  have hempty := (size_eq_zero ch).mp h0
  have hadm : ∀ p, p ∉ ch.adms := fun p hp => hempty p (hI.adm k ch hch p hp)
  have hop : x ∈ ((Ch.new x).enter x).adms := mem_insert_iff.mpr (.inl rfl)
  rw [hch, Option.getD_some] at hold
  split at hold
  · have heq := Option.some.inj hold.1
    rw [← heq] at hop
    exact hadm x hop
  · have heq := Option.some.inj hold.1
    rw [← heq] at hop
    exact hadm x hop

end Pruned

end FtIrc
