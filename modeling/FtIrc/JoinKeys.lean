import FtIrc.Admission

/-!
# The keys of JOIN

`execJoin` takes the keys from the front of a list, one for each name that it gets as far as, and the
splitter has dropped the empty ones.  `comparisons` is which name is compared with which key; `Aligned` is
when that is, for each of them, the key at the position of the name (`positional_iff`).
-/

namespace FtIrc

open Std Outcome Server Delimited

variable {s s' u : Server} {x : Ptr} {ar : List Str} {c : Cli} {k name key line pass : Str}
  {joined names passes keys : List Str} {cfg : Config} {srvPass : Str} {lfd n : Nat} {ps : List (Str × Str)}

/-! ## Names and keys by position -/

/-- The fields of a comma list, the empty ones included. -/
def fields (s : Str) : List Str := s.splitOn COMMA

/-- The splitter drops the empty fields. -/
theorem splitArgToSubargs_eq (s : Str) : splitArgToSubargs s = (fields s).filter (· ≠ []) := by
  induction h : s.length using Nat.strongRecOn generalizing s with
  | ind n ih =>
    by_cases hs : COMMA ∈ s
    · obtain ⟨a, b, rfl, ha⟩ := List.eq_append_cons_of_mem hs
      have hb := ih b.length (by rw [← h]; simp; omega) b rfl
      have hsplit : fields (a ++ COMMA :: b) = a :: fields b := List.splitOn_append_cons_self_of_not_mem ha b
      rw [splitArgToSubargs_append, hb, hsplit]
      by_cases hne : a = []
      · subst hne
        rfl
      · rw [splitArgToSubargs_item hne ha, List.filter_cons_of_pos (by simpa using hne)]
        rfl
    · unfold fields
      rw [List.splitOn_eq_singleton hs]
      by_cases hne : s = []
      · subst hne
        rfl
      · rw [splitArgToSubargs_item hne hs, List.filter_cons_of_pos (by simpa using hne)]
        rfl

/-- Each name with the key at its position, or with none. -/
def pairUp : List Str → List Str → List (Str × Str)
  | [], _ => []
  | name :: names, keys => (name, keys.headD []) :: pairUp names keys.tail

theorem map_fst_pairUp : ∀ names keys : List Str, (pairUp names keys).map Prod.fst = names
  | [], _ => rfl
  | name :: names, keys => congrArg (name :: ·) (map_fst_pairUp names keys.tail)

/-- The third argument, field by field. -/
def keyFields (ar : List Str) : List Str := ((ar[2]?).map fields).getD []

/-! ## The comparisons -/

/-- The channel has a key. -/
def Keyed (s : Server) (k : Str) : Prop := ∃ ch, s.chs[k]? = some ch ∧ ch.pass ≠ []

instance (s : Server) (k : Str) : Decidable (Keyed s k) :=
  decidable_of_iff ((s.chs[k]?).any (fun ch => ch.pass ≠ []) = true) (by simp [Keyed, Option.any_eq_true])

/-- The comparisons that the loop of `JOIN` makes: each name of a channel with a key, and what it is compared
with. -/
def comparisons (x : Ptr) (c : Cli) : List Str → List Str → Server → List (Str × Str)
  | [], _, _ => []
  | name :: names, passes, u =>
    if MAX_CHS_PER_USER - 1 < u.nbChannels x then []
    else if badName name = true ∨ On u x name then comparisons x c names passes u
    else
      let rest := comparisons x c names passes.tail (joinOne u x c name (passes.headD [])).1
      if Keyed u name then (name, passes.headD []) :: rest else rest

/-- The comparisons of a command. -/
def compared (s : Server) (x : Ptr) (c : Cli) (ar : List Str) : List (Str × Str) :=
  if tooManyTargets (splitArgToSubargs (argD ar 1)) then []
  else comparisons x c (splitArgToSubargs (argD ar 1)) (joinKeys ar) s

/-- A name gets as far as the key. -/
def Tested (s : Server) (x : Ptr) (name : Str) : Prop := badName name = false ∧ ¬ On s x name

instance (s : Server) (x : Ptr) (name : Str) : Decidable (Tested s x name) := by
  unfold Tested
  infer_instance

/-- The comparisons, from what the channels were before. -/
def tests (s : Server) (x : Ptr) (c : Cli) : Nat → List Str → List Str → List (Str × Str)
  | _, [], _ => []
  | n, name :: names, passes =>
    if MAX_CHS_PER_USER - 1 < n then []
    else if ¬ Tested s x name then tests s x c n names passes
    else
      let rest := tests s x c (if Admitted s c name (passes.headD []) then n + 1 else n) names passes.tail
      if Keyed s name then (name, passes.headD []) :: rest else rest

/-- The loop compares each name once, so what it has joined already does not matter. -/
theorem comparisons_eq : ∀ (names passes joined : List Str) (u : Server), names.Nodup →
    (∀ n ∈ names, COMMA ∉ n ∧ n ∉ joined) → Track s u x c joined → JoinSafe s x c joined names passes →
    comparisons x c names passes u = tests s x c (s.nbChannels x + joined.length) names passes
  | [], _, _, _, _, _, _, _ => rfl
  | name :: names, passes, joined, u, hnodup, hnames, h, hsafe => by
    obtain ⟨hnew, hnodup⟩ := List.nodup_cons.mp hnodup
    obtain ⟨hcomma, hno⟩ := hnames name (List.mem_cons_self ..)
    have hrest := fun passes joined u => comparisons_eq names passes joined u hnodup
    have hlater : ∀ n ∈ names, COMMA ∉ n ∧ n ∉ joined := fun n hn => hnames n (List.mem_cons_of_mem _ hn)
    unfold JoinSafe at hsafe
    unfold comparisons tests
    rw [h.joined.nbChannels]
    by_cases hmany : MAX_CHS_PER_USER - 1 < s.nbChannels x + joined.length
    · rw [if_pos hmany, if_pos hmany]
    rw [if_neg hmany] at hsafe
    rw [if_neg hmany, if_neg hmany]
    have hon : On u x name ↔ On s x name := h.joined.on_iff.trans (or_iff_left hno)
    have hkeyed : Keyed u name ↔ Keyed s name := by
      unfold Keyed
      rw [h.joined.other name hno]
    have htested : Tested s x name ↔ ¬ (badName name = true ∨ On u x name) := by
      unfold Tested
      rw [hon, not_or, Bool.not_eq_true]
    by_cases hbad : badName name = true
    · rw [if_pos hbad] at hsafe
      rw [if_pos (.inl hbad), if_pos (fun ht => htested.mp ht (.inl hbad))]
      exact hrest passes joined u hlater h hsafe
    rw [if_neg hbad] at hsafe
    obtain ⟨hspell, hsafe⟩ := hsafe
    by_cases hoff : On u x name
    · rw [if_pos (.inl (hon.mp hoff))] at hsafe
      rw [if_pos (.inr hoff), if_pos (fun ht => htested.mp ht (.inr hoff))]
      exact hrest passes joined u hlater h hsafe
    · have hgood : ¬ (badName name = true ∨ On u x name) := not_or.mpr ⟨hbad, hoff⟩
      rw [if_neg (not_or.mpr ⟨fun ho => hoff (hon.mpr ho), hno⟩)] at hsafe
      rw [if_neg hgood, if_neg (not_not.mpr (htested.mpr hgood))]
      have hname : ChName name := chName_of_badName (by simpa using hbad) hcomma
      obtain ⟨ch, -, hone⟩ := h.one hname hoff hspell (passes.headD [])
      -- the names to come are compared as before
      have hnext : comparisons x c names passes.tail (joinOne u x c name (passes.headD [])).1 =
          tests s x c (if Admitted s c name (passes.headD []) then s.nbChannels x + joined.length + 1
            else s.nbChannels x + joined.length) names passes.tail := by
        by_cases hin : Admitted s c name (passes.headD [])
        · rw [if_pos hin] at hone hsafe
          rw [if_pos hin]
          refine hrest passes.tail (name :: joined) _ (fun n hn => ⟨(hlater n hn).1, fun hj => ?_⟩) hone.2 hsafe
          rcases List.mem_cons.mp hj with rfl | hj
          · exact hnew hn
          · exact (hlater n hn).2 hj
        · rw [if_neg hin] at hone hsafe
          rw [if_neg hin, hone.2]
          exact hrest passes.tail joined u hlater h hsafe
      simp only [hnext, hkeyed]

/-! ## Shifts -/

/-- In the list `ps` of the names with their keys, from a state in which `n` channels are joined: the key that is
left for a name, when every tested name before it has taken one, is its own. -/
def AlignedFrom (s : Server) (x : Ptr) (c : Cli) (n : Nat) (ps : List (Str × Str)) (passes : List Str) : Prop :=
  ∀ before name key after, ps = before ++ (name, key) :: after → Keyed s name → Tested s x name →
    n + before.countP (fun e => Tested s x e.1 ∧ Admitted s c e.1 e.2) < MAX_CHS_PER_USER →
      passes.getD (before.countP fun e => Tested s x e.1) [] = key

/-- The names that are tested, up to the bound on the channels, find their keys in their places. -/
def Aligned (s : Server) (x : Ptr) (c : Cli) (ar : List Str) : Prop :=
  tooManyTargets (splitArgToSubargs (argD ar 1)) = false →
    AlignedFrom s x c (s.nbChannels x) (pairUp (fields (argD ar 1)) (keyFields ar)) (joinKeys ar)

/-- With as many channels as are allowed, no key matters. -/
theorem alignedFrom_full (h : MAX_CHS_PER_USER ≤ n) : AlignedFrom s x c n ps passes := by
  intro before name key after _ _ _ hlt
  omega

theorem alignedFrom_cons : AlignedFrom s x c n ((name, key) :: ps) passes ↔
    (Keyed s name → Tested s x name → n < MAX_CHS_PER_USER → passes.headD [] = key) ∧
      AlignedFrom s x c (if Tested s x name ∧ Admitted s c name key then n + 1 else n) ps
        (if Tested s x name then passes.tail else passes) := by
  -- the counts of a list that begins with the name
  have hcount : ∀ before : List (Str × Str),
      n + ((name, key) :: before).countP (fun e => Tested s x e.1 ∧ Admitted s c e.1 e.2) =
        (if Tested s x name ∧ Admitted s c name key then n + 1 else n) +
          before.countP (fun e => Tested s x e.1 ∧ Admitted s c e.1 e.2) := by
    intro before
    rw [List.countP_cons]
    simp only [decide_eq_true_eq]
    split <;> omega
  have htake : ∀ before : List (Str × Str),
      passes.getD (((name, key) :: before).countP fun e => Tested s x e.1) [] =
        (if Tested s x name then passes.tail else passes).getD (before.countP fun e => Tested s x e.1) [] := by
    intro before
    rw [List.countP_cons]
    simp only [decide_eq_true_eq]
    split
    · cases passes <;> simp
    · rfl
  constructor
  · intro h
    refine ⟨fun hkey htest hlt => ?_, fun before name' key' after hps hkey htest hlt => ?_⟩
    · have hhead := h [] name key ps rfl hkey htest hlt
      cases passes <;> exact hhead
    · rw [← htake]
      refine h ((name, key) :: before) name' key' after (by rw [hps]; rfl) hkey htest ?_
      rw [hcount]
      exact hlt
  · rintro ⟨hhead, hrest⟩ before name' key' after hps hkey htest hlt
    rcases List.cons_eq_append_iff.mp hps with ⟨rfl, heq⟩ | ⟨before, rfl, rfl⟩
    · obtain ⟨heq, -⟩ := List.cons.inj heq
      cases heq
      have := hhead hkey htest hlt
      cases passes <;> exact this
    · rw [htake]
      rw [hcount] at hlt
      exact hrest before name' key' after rfl hkey htest hlt

/-- Only names of the list that are tested are compared. -/
theorem mem_tests : ∀ (names passes : List Str) (n : Nat), (name, key) ∈ tests s x c n names passes →
    name ∈ names ∧ Tested s x name
  | [], _, _, h => absurd h List.not_mem_nil
  | m :: names, passes, n, h => by
    have hrest := fun passes n h => (mem_tests names passes n h).imp_left (List.mem_cons_of_mem m)
    unfold tests at h
    split at h
    · cases h
    split at h
    · exact hrest passes n h
    rename_i htest
    dsimp only at h
    split at h
    · rcases List.mem_cons.mp h with he | h
      · cases he
        exact ⟨List.mem_cons_self .., not_not.mp htest⟩
      · exact hrest passes.tail _ h
    · exact hrest passes.tail _ h

/-- Without a key on the channel, any key does. -/
theorem admitted_unkeyed (key pass : Str) (h : ¬ Keyed s name) : Admitted s c name key ↔ Admitted s c name pass := by
  unfold Admitted
  cases hch : s.chs[name]? with
  | none => rfl
  | some ch =>
    have hpass : ch.pass = [] := by
      by_contra hne
      exact h ⟨ch, hch, hne⟩
    simp [Admits, hpass]

/-- **The loop compares each name with the key at its position** exactly if the names are aligned. -/
theorem tests_positional : ∀ (ps : List (Str × Str)) (passes : List Str) (n : Nat),
    ((ps.map Prod.fst).filter (· ≠ [])).Nodup →
    ((∀ name key, (name, key) ∈ tests s x c n ((ps.map Prod.fst).filter (· ≠ [])) passes →
        ∀ key', (name, key') ∈ ps → key = key') ↔ AlignedFrom s x c n ps passes)
  | [], _, _, _ => iff_of_true (fun _ _ h => absurd h List.not_mem_nil) (fun _ _ _ _ h => by simp at h)
  | (name, key) :: ps, passes, n, hnodup => by
    have hrest := tests_positional ps
    rw [alignedFrom_cons]
    rw [List.map_cons] at hnodup ⊢
    by_cases hne : name = []
    · -- an empty field is dropped
      subst hne
      have hbad : ¬ Tested s x [] := fun h => absurd h.1 (by decide)
      rw [List.filter_cons_of_neg (by simp)] at hnodup ⊢
      rw [if_neg fun h => hbad h.1, if_neg hbad, and_iff_right fun _ h => absurd h hbad, ← hrest passes n hnodup]
      refine forall₃_congr fun m key' hm => forall_congr' fun k => ?_
      have hm0 : m ≠ [] := by simpa using (List.mem_filter.mp (mem_tests _ _ _ hm).1).2
      simp [hm0]
    rw [List.filter_cons_of_pos (by simpa using hne)] at hnodup ⊢
    obtain ⟨hnew, hnodup⟩ := List.nodup_cons.mp hnodup
    -- the names to come are others
    have hother : ∀ (passes : List Str) (n : Nat), (∀ m key', (m, key') ∈
        tests s x c n ((ps.map Prod.fst).filter (· ≠ [])) passes → ∀ k, (m, k) ∈ (name, key) :: ps → key' = k) ↔
          AlignedFrom s x c n ps passes := by
      intro passes n
      rw [← hrest passes n hnodup]
      refine forall₃_congr fun m key' hm => forall_congr' fun k => ?_
      have hm0 : m ≠ name := fun he => hnew (he ▸ (mem_tests _ _ _ hm).1)
      simp [hm0]
    unfold tests
    by_cases hmany : MAX_CHS_PER_USER - 1 < n
    · have hfull : MAX_CHS_PER_USER ≤ n := by omega
      rw [if_pos hmany]
      refine iff_of_true (fun _ _ h => absurd h List.not_mem_nil)
        ⟨fun _ _ hlt => absurd hlt (by omega), alignedFrom_full ?_⟩
      split <;> omega
    rw [if_neg hmany]
    by_cases htest : Tested s x name
    · rw [if_neg (not_not.mpr htest)]
      simp only [htest, if_true, true_and, true_imp_iff]
      have hlt : n < MAX_CHS_PER_USER := by
        have : MAX_CHS_PER_USER = 5 := rfl
        omega
      by_cases hkey : Keyed s name
      · have hhead : ∀ k, (name, k) ∈ (name, key) :: ps → k = key := by
          intro k hk
          rcases List.mem_cons.mp hk with he | hk
          · cases he
            rfl
          · refine absurd (List.mem_filter.mpr ⟨List.mem_map_of_mem hk, ?_⟩) hnew
            simpa using hne
        rw [if_pos hkey, imp_iff_right hkey, imp_iff_right hlt]
        constructor
        · intro h
          have heq := h name _ (List.mem_cons_self ..) key (List.mem_cons_self ..)
          rw [heq] at h
          refine ⟨heq, (hother passes.tail _).mp fun m key' hm => h m key' (List.mem_cons_of_mem _ hm)⟩
        · rintro ⟨heq, hall⟩ m key' hm k hk
          rw [heq] at hm
          rcases List.mem_cons.mp hm with he | hm
          · cases he
            exact (hhead k hk).symm
          · exact (hother passes.tail _).mpr hall m key' hm k hk
      · have hsame : (if Admitted s c name (passes.headD []) then n + 1 else n) =
            if Admitted s c name key then n + 1 else n := by
          simp only [admitted_unkeyed (passes.headD []) key hkey]
        rw [if_neg hkey, and_iff_right fun h => absurd h hkey, hsame]
        exact hother passes.tail _
    · rw [if_pos htest, if_neg fun h => htest h.1, if_neg htest, and_iff_right fun _ h => absurd h htest]
      exact hother passes n

/-- A name that is compared is joined exactly if it is admitted with what it is compared with. -/
theorem mem_joins_of_tests : ∀ (names passes joined : List Str), names.Nodup →
    (∀ n ∈ names, COMMA ∉ n ∧ n ∉ joined) → (name, key) ∈ tests s x c (s.nbChannels x + joined.length) names passes →
    (name ∈ joins s x c joined names passes ↔ Admitted s c name key)
  | [], _, _, _, _, h => absurd h List.not_mem_nil
  | m :: names, passes, joined, hnodup, hnames, h => by
    obtain ⟨hnew, hnodup⟩ := List.nodup_cons.mp hnodup
    obtain ⟨-, hno⟩ := hnames m (List.mem_cons_self ..)
    have hlater : ∀ n ∈ names, COMMA ∉ n ∧ n ∉ joined := fun n hn => hnames n (List.mem_cons_of_mem _ hn)
    have hlater' : ∀ n ∈ names, COMMA ∉ n ∧ n ∉ m :: joined := fun n hn =>
      ⟨(hlater n hn).1, fun hj => ((List.mem_cons.mp hj).elim (fun he => hnew (he ▸ hn)) (hlater n hn).2)⟩
    unfold tests at h
    unfold joins
    split at h
    · cases h
    rename_i hfew
    rw [if_neg hfew]
    split at h
    · rename_i htest
      have hskip : badName m = true ∨ On s x m ∨ m ∈ joined := by
        unfold Tested at htest
        rw [not_and_or, Bool.not_eq_false, not_not] at htest
        exact htest.imp_right .inl
      rw [if_pos hskip]
      exact mem_joins_of_tests names passes joined hnodup hlater h
    rename_i htest
    obtain ⟨hbad, hoff⟩ := not_not.mp htest
    have hgood : ¬ (badName m = true ∨ On s x m ∨ m ∈ joined) := by
      simp [hbad, hoff, hno]
    rw [if_neg hgood]
    dsimp only at h
    -- the comparisons behind the first
    have hrest : (name, key) ∈ tests s x c (if Admitted s c m (passes.headD []) then
        s.nbChannels x + joined.length + 1 else s.nbChannels x + joined.length) names passes.tail →
        ((name ∈ if Admitted s c m (passes.headD []) then joins s x c (m :: joined) names passes.tail
          else joins s x c joined names passes.tail) ↔ Admitted s c name key) := by
      intro h
      split at h
      · rename_i hin
        rw [if_pos hin]
        exact mem_joins_of_tests names passes.tail (m :: joined) hnodup hlater' h
      · rename_i hin
        rw [if_neg hin]
        exact mem_joins_of_tests names passes.tail joined hnodup hlater h
    split at h
    · rcases List.mem_cons.mp h with he | h
      · cases he
        split
        · rename_i hin
          exact iff_of_true (subset_joins _ _ _ name (List.mem_cons_self ..)) hin
        · rename_i hin
          refine iff_of_false (fun hj => hnew ?_) hin
          exact (passed_of_mem_joins _ _ _ (fun n hn => (hlater n hn).1) hj hno).named
      · exact hrest h
    · exact hrest h

/-! ## The law -/

/-- The comparisons of a command are with the keys at the positions of the names, and these decide. -/
def KeysPositional (s s' : Server) (x : Ptr) (c : Cli) (ar : List Str) : Prop :=
  ∀ name key, (name, key) ∈ compared s x c ar →
    ∀ key', (name, key') ∈ pairUp (fields (argD ar 1)) (keyFields ar) →
      key = key' ∧ (On s' x name ↔ Admitted s c name key')

theorem joinKeys_eq (ar : List Str) : joinKeys ar = (keyFields ar).filter (· ≠ []) := by
  unfold joinKeys keyFields
  cases ar[2]? with
  | none => rfl
  | some a => exact splitArgToSubargs_eq a

/-- **The keys of JOIN are positional** exactly if the names are aligned with them. -/
theorem positional_iff (hr : Reachable srvPass lfd cfg) (hc : cfg.srv.cliAt x = some c) (hreg : c.registered = true)
    (h : cfg.srv.execLine x line = .ok s') (hcmd : CmdIs (splitCmdToArgs line) "JOIN")
    (hlen : 3 ≤ (splitCmdToArgs line).length) :
    KeysPositional cfg.srv s' x c (splitCmdToArgs line) ↔ Aligned cfg.srv x c (splitCmdToArgs line) := by
  have hI := hr.good.inv
  have hpart : ¬ PartCmd (splitCmdToArgs line) := by
    rw [partCmd_join_iff hcmd]
    omega
  obtain ⟨-, -, -, -, hsafe, -⟩ := execLine_run hI hc h
  have hent := afterJoin_execLine hI hc h hcmd hpart
  generalize splitCmdToArgs line = ar at *
  unfold KeysPositional Aligned compared
  by_cases hmany : tooManyTargets (splitArgToSubargs (argD ar 1)) = true
  · rw [if_pos hmany]
    refine iff_of_true (fun _ _ h => absurd h List.not_mem_nil) fun hfew => ?_
    rw [hmany] at hfew
    cases hfew
  rw [if_neg hmany, imp_iff_right (by simpa using hmany)]
  have hgo : GoesThrough c ar := ⟨hreg, by omega, fun hz => by omega, by simpa using hmany⟩
  have hnodup : (splitArgToSubargs (argD ar 1)).Nodup := by
    unfold tooManyTargets at hmany
    simp only [decide_eq_true_eq, not_or, not_not] at hmany
    exact hmany.1
  have hcomma : ∀ n ∈ splitArgToSubargs (argD ar 1), COMMA ∉ n ∧ n ∉ ([] : List Str) :=
    fun n hn => ⟨splitArgToSubargs_comma hn, List.not_mem_nil⟩
  rw [comparisons_eq _ _ [] cfg.srv hnodup hcomma (.refl hI hc hreg) (joinSafe_of_goesThrough hc (hsafe.join hcmd) hgo)]
  have hadm : ∀ name key, (name, key) ∈ tests cfg.srv x c (cfg.srv.nbChannels x) (splitArgToSubargs (argD ar 1))
      (joinKeys ar) → (name ∈ joins cfg.srv x c [] (splitArgToSubargs (argD ar 1)) (joinKeys ar) ↔
        Admitted cfg.srv c name key) :=
    fun name key => mem_joins_of_tests (splitArgToSubargs (argD ar 1)) (joinKeys ar) [] hnodup hcomma
  have hpos : _ → (_ ↔ AlignedFrom cfg.srv x c (cfg.srv.nbChannels x) (pairUp (fields (argD ar 1)) (keyFields ar))
      (joinKeys ar)) := tests_positional _ _ _
  rw [map_fst_pairUp, ← splitArgToSubargs_eq] at hpos
  rw [← hpos hnodup]
  constructor
  · exact fun h name key hk key' hk' => (h name key hk key' hk').1
  · intro h name key hk key' hk'
    have heq := h name key hk key' hk'
    have hoff := (mem_tests _ _ _ hk).2.2
    refine ⟨heq, ?_⟩
    rw [hent.on_iff, or_iff_left hoff, joinNames_eq hgo, ← heq]
    exact hadm name key hk

/-- Without a name that is skipped, and without an empty key, the names are aligned. -/
theorem alignedFrom_tested : ∀ (names keys : List Str) (n : Nat), (∀ name ∈ names, Tested s x name) →
    AlignedFrom s x c n (pairUp names keys) keys
  | [], _, _, _ => by
    intro before name key after h
    simp [pairUp] at h
  | name :: names, keys, n, h => by
    unfold pairUp
    rw [alignedFrom_cons, if_pos (h name (List.mem_cons_self ..))]
    exact ⟨fun _ _ _ => rfl, alignedFrom_tested names keys.tail _ fun m hm => h m (List.mem_cons_of_mem _ hm)⟩

theorem aligned_of_tested (hnames : ∀ name ∈ fields (argD ar 1), Tested s x name)
    (hkeys : ∀ key ∈ keyFields ar, key ≠ []) : Aligned s x c ar := by
  intro _
  rw [joinKeys_eq, List.filter_eq_self.mpr fun key hkey => decide_eq_true (hkeys key hkey)]
  exact alignedFrom_tested _ _ _ hnames

/-- Two channels with keys, joined with their keys. -/
theorem positional_iff_two : ∃ cfg c s', Reachable (str "2") 3 cfg ∧ cfg.srv.cliAt bob.addr = some c ∧
    cfg.srv.execLine bob.addr (str "JOIN #a,#b k,l") = .ok s' ∧ On s' bob.addr (str "#b") ∧
    KeysPositional cfg.srv s' bob.addr c (splitCmdToArgs (str "JOIN #a,#b k,l")) := by
  obtain ⟨cfg, hrun, hP⟩ := exists_run (str "2") 3 (connect 0 alice ++
    say 0 0 6 (register "al" ++ str "JOIN #a,#b\r\nMODE #a +k k\r\nMODE #b +k l\r\n") ++ connect 1 bob ++
      say 1 0 3 (register "bo"))
    (fun cfg => (cfg.srv.cliAt bob.addr).any fun c : Cli => c.registered &&
      decide (∀ name ∈ fields (str "#a,#b"), Tested cfg.srv bob.addr name) &&
      (cfg.srv.execLine bob.addr (str "JOIN #a,#b k,l")).toOption.any fun s' => On s' bob.addr (str "#b"))
    (by decide +kernel)
  simp only [Bool.and_eq_true, Option.any_eq_true, decide_eq_true_eq] at hP
  obtain ⟨c, hc, ⟨hreg, hnames⟩, s', hs', hon⟩ := hP
  replace hs' := eq_ok_of_toOption hs'
  refine ⟨cfg, c, s', ⟨_, hrun⟩, hc, hs', hon, ?_⟩
  exact (positional_iff ⟨_, hrun⟩ hc hreg hs' (by decide) (by decide)).mpr (aligned_of_tested hnames (by decide))

/-- A channel that the author is on already takes no key, so that the next gets its key. -/
theorem key_shifted : ¬ ∀ (pass : Str) (lfd : Nat) (cfg : Config), Reachable pass lfd cfg →
    ∀ (x : Ptr) (c : Cli) (line : Str) (s' : Server), cfg.srv.cliAt x = some c → c.registered = true →
      cfg.srv.execLine x line = .ok s' → CmdIs (splitCmdToArgs line) "JOIN" → 3 ≤ (splitCmdToArgs line).length →
      (keyFields (splitCmdToArgs line)).length ≤ (fields (argD (splitCmdToArgs line) 1)).length →
      KeysPositional cfg.srv s' x c (splitCmdToArgs line) := by
  intro hall
  obtain ⟨cfg, hrun, hP⟩ := exists_run (str "2") 3 (connect 0 alice ++
    say 0 0 5 (register "al" ++ str "JOIN #a,#b\r\nMODE #b +k l\r\n") ++ connect 1 bob ++
      say 1 0 4 (register "bo" ++ str "JOIN #a\r\n"))
    (fun cfg => (cfg.srv.cliAt bob.addr).any fun c : Cli => c.registered &&
      decide ((str "#b", str "k") ∈ compared cfg.srv bob.addr c (splitCmdToArgs (str "JOIN #a,#b k,l"))) &&
      (cfg.srv.execLine bob.addr (str "JOIN #a,#b k,l")).toOption.isSome)
    (by decide +kernel)
  simp only [Bool.and_eq_true, Option.any_eq_true, Option.isSome_iff_exists, decide_eq_true_eq] at hP
  obtain ⟨c, hc, ⟨hreg, hcomp⟩, s', hs'⟩ := hP
  obtain ⟨heq, -⟩ := hall _ _ cfg ⟨_, hrun⟩ _ c _ s' hc hreg (eq_ok_of_toOption hs') (by decide) (by decide) (by decide)
    _ _ hcomp (str "l") (by decide)
  exact absurd heq (by decide)

end FtIrc
