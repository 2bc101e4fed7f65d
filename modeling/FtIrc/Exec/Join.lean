import FtIrc.Exec.Leave

/-!
# Executing JOIN

The loop over the names is followed by a recursion on the state the command began in: `joins` lists
the channels the author joins, `JoinSafe` says when no name sends `operator[]` to a missing key.
`JOIN 0` is `PART` with a list of all channels of the author, and fails exactly if there are two.
-/

namespace FtIrc

open Std Outcome Server

variable {s₀ s s' : Server} {x y : Ptr} {ar : List Str} {c d : Cli} {k name pass a1 : Str} {ch : Ch}
  {joined names passes : List Str}

/-! ## Counting channels -/

theorem nbChannels_eq (s : Server) (x : Ptr) :
    s.nbChannels x = (s.chs.keys.filter fun k => On s x k).length := by
  rw [← ExtTreeMap.map_fst_toList_eq_keys, List.filter_map, List.length_map]
  unfold nbChannels
  congr 1
  refine List.filter_congr fun e he => ?_
  have hch := ExtTreeMap.mem_toList_iff_getElem?_eq_some.mp (show (e.1, e.2) ∈ s.chs.toList from he)
  simp [On, hch]

theorem mem_of_on (h : On s x k) : k ∈ s.chs := by
  obtain ⟨ch, hch, -⟩ := h
  exact mem_chs.mpr ⟨ch, hch⟩

/-- The author has joined the channels `joined` since `s₀`, and nothing else has happened to the
channels and to its other invitations. -/
structure Joined (s₀ s : Server) (x : Ptr) (c : Cli) (joined : List Str) : Prop where
  nodup : joined.Nodup
  other : ∀ k, k ∉ joined → s.chs[k]? = s₀.chs[k]?
  fresh : ∀ k ∈ joined, ¬ On s₀ x k
  on : ∀ k ∈ joined, On s x k
  invits : ∃ d, s.cliAt x = some d ∧ ∀ k, k ∉ joined → (k ∈ d.invits ↔ k ∈ c.invits)

theorem Joined.on_iff (h : Joined s₀ s x c joined) : On s x k ↔ On s₀ x k ∨ k ∈ joined := by
  by_cases hk : k ∈ joined
  · simp [hk, h.on k hk]
  · simp [On, h.other k hk, hk]

theorem Joined.mem_iff (h : Joined s₀ s x c joined) (hkeep : ∀ k ∈ s₀.chs, k ∈ s.chs) :
    k ∈ s.chs ↔ k ∈ s₀.chs ∨ k ∈ joined := by
  by_cases hk : k ∈ joined
  · simp [hk, mem_of_on (h.on k hk)]
  · simp only [hk, or_false]
    refine ⟨fun hm => ?_, hkeep k⟩
    obtain ⟨ch, hch⟩ := mem_chs.mp hm
    exact mem_chs.mpr ⟨ch, h.other k hk ▸ hch⟩

theorem Joined.nbChannels (h : Joined s₀ s x c joined) :
    s.nbChannels x = s₀.nbChannels x + joined.length := by
  have hfin : ∀ s : Server, s.nbChannels x = (s.chs.keys.filter fun k => On s x k).toFinset.card :=
    fun s => by
      rw [nbChannels_eq, List.toFinset_card_of_nodup (ExtTreeMap.nodup_keys.filter _)]
  have hunion : (s.chs.keys.filter fun k => On s x k).toFinset =
      (s₀.chs.keys.filter fun k => On s₀ x k).toFinset ∪ joined.toFinset := by
    ext k
    simp only [List.mem_toFinset, List.mem_filter, ExtTreeMap.mem_keys, decide_eq_true_eq,
      Finset.mem_union]
    rw [and_iff_right_of_imp mem_of_on, and_iff_right_of_imp mem_of_on, h.on_iff]
  have hdisj : Disjoint (s₀.chs.keys.filter fun k => On s₀ x k).toFinset joined.toFinset := by
    rw [Finset.disjoint_left]
    intro k hk hj
    simp only [List.mem_toFinset, List.mem_filter, decide_eq_true_eq] at hk hj
    exact h.fresh k hj hk.2
  rw [hfin s, hfin s₀, hunion, Finset.card_union_of_disjoint hdisj,
    List.toFinset_card_of_nodup h.nodup]

/-! ## The condition -/

/-- The test of `badChName`. -/
def badName (chName : Str) : Bool :=
  decide (chName.length ≤ 1 ∨ 200 < chName.length ∨ chName.head? ≠ some HASH ∨
    ∃ b ∈ chName, b ∈ str "0\\")

/-- The tests of `joinCh` let a client in. -/
def Admits (me : Cli) (ch : Ch) (chName pass : Str) : Prop :=
  (ch.pass ≠ [] → pass = ch.pass) ∧ ch.size < ch.limit ∧ (ch.optI = true → chName ∈ me.invits)

instance (me : Cli) (ch : Ch) (chName pass : Str) : Decidable (Admits me ch chName pass) := by
  unfold Admits
  infer_instance

/-- A name is admitted: a new channel lets its creator in. -/
def Admitted (s : Server) (me : Cli) (chName pass : Str) : Prop :=
  (s.chs[chName]?).all fun ch => Admits me ch chName pass

instance (s : Server) (me : Cli) (chName pass : Str) : Decidable (Admitted s me chName pass) := by
  unfold Admitted
  infer_instance

/-- The channels joined after `joined`, for the names and keys still to come. -/
def joins (s : Server) (x : Ptr) (me : Cli) : List Str → List Str → List Str → List Str
  | joined, [], _ => joined
  | joined, name :: names, passes =>
    if MAX_CHS_PER_USER - 1 < s.nbChannels x + joined.length then joined
    else if badName name ∨ On s x name ∨ name ∈ joined then joins s x me joined names passes
    else if Admitted s me name (passes.headD []) then
      joins s x me (name :: joined) names passes.tail
    else joins s x me joined names passes.tail

theorem subset_joins {me : Cli} : ∀ (names passes joined : List Str), ∀ k ∈ joined,
    k ∈ joins s x me joined names passes
  | [], _, _, _, hk => hk
  | name :: names, passes, joined, k, hk => by
    unfold joins
    split
    · exact hk
    split
    · exact subset_joins names passes joined k hk
    split
    · exact subset_joins names passes.tail (name :: joined) k (List.mem_cons_of_mem _ hk)
    · exact subset_joins names passes.tail joined k hk

/-- Every name that is reached, is valid, and is the name of a channel up to case, is spelled as
that channel's key. -/
def JoinSafe (s : Server) (x : Ptr) (me : Cli) : List Str → List Str → List Str → Prop
  | _, [], _ => True
  | joined, name :: names, passes =>
    if MAX_CHS_PER_USER - 1 < s.nbChannels x + joined.length then True
    else if badName name then JoinSafe s x me joined names passes
    else (∀ k ∈ s.chs.keys ++ joined, toLower k = toLower name → k = name) ∧
      if On s x name ∨ name ∈ joined then JoinSafe s x me joined names passes
      else if Admitted s me name (passes.headD []) then
        JoinSafe s x me (name :: joined) names passes.tail
      else JoinSafe s x me joined names passes.tail

theorem badChName_ok (n : Str) : badChName n = .ok (badName n) := by
  unfold badChName badName
  split
  · rename_i h
    simp only [Except.ok.injEq]
    symm
    rw [decide_eq_true_iff]
    rcases h with h | h
    · exact .inl h
    · exact .inr (.inl h)
  · rename_i h
    push Not at h
    cases n with
    | nil => simp at h
    | cons b n =>
      show Except.ok _ = _
      congr 1
      rw [decide_eq_decide]
      simp only [List.head?_cons, ne_eq, Option.some.injEq]
      constructor
      · exact fun hb => .inr (.inr hb)
      · rintro (h1 | h2 | hb)
        · omega
        · omega
        · exact hb

theorem chName_of_badName {n : Str} (h : badName n = false) (hc : COMMA ∉ n) : ChName n := by
  unfold badName at h
  rw [decide_eq_false_iff_not] at h
  push Not at h
  exact ⟨h.1, h.2.1, h.2.2.1, h.2.2.2, hc⟩

/-! ## One name -/

theorem mem_insert_iff {t : ExtTreeSet Ptr} : y ∈ t.insert x ↔ y = x ∨ y ∈ t := by
  rw [ExtTreeSet.mem_insert, Std.compare_eq_iff_eq, eq_comm]

/-- The end of `joinCh` only prepares lines. -/
theorem joinCh_tail (h : Mid s₀ x ar c s) (hx : IsReg s₀ x) (hch : s.chs[name]? = some ch)
    (hn : TidyArgs ar → CrlfFree name) :
    ∃ mail, Mid s₀ x ar c (s.sendAll mail) ∧ (do
      let s ← s.prepareRespAuthorIncluding (s.getCh name)
        (str ":" ++ hostPrefix c ++ str " JOIN " ++ name)
      let ch ← s.derefCh (s.getCh name)
      let s ←
        if ch.topic ≠ [] then
          s.prepareResp x (str "332 " ++ c.nick ++ str " " ++ name ++ str " :" ++ ch.topic)
        else .ok s
      let us ← s.users (s.getCh name)
      s.prepareRespAuthorIncluding (s.getCh name)
        (str ":localhost 353 " ++ localPrefix c ++ str " = " ++ name ++ str " :" ++ us)) =
      .ok (s.sendAll mail) := by
  have hget : s.getCh name = some name := getCh_self h.inv (mem_chs.mpr ⟨ch, hch⟩)
  -- the 353 line, in any state reached by preparing lines
  have hlast : ∀ mail, Mid s₀ x ar c (s.sendAll mail) →
      ∃ mail', Mid s₀ x ar c (s.sendAll mail') ∧ (do
        let us ← (s.sendAll mail).users ((s.sendAll mail).getCh name)
        (s.sendAll mail).prepareRespAuthorIncluding ((s.sendAll mail).getCh name)
          (str ":localhost 353 " ++ localPrefix c ++ str " = " ++ name ++ str " :" ++ us)) =
        .ok (s.sendAll mail') := by
    intro mail hm
    have hch' : (s.sendAll mail).chs[name]? = some ch := by rw [chs_sendAll]; exact hch
    obtain ⟨us, hus, hfree⟩ := users_ok hm.inv hch'
    obtain ⟨heq, hmid⟩ := hm.broadcast hx hch'
      (m := str ":localhost 353 " ++ localPrefix c ++ str " = " ++ name ++ str " :" ++ us)
      fun hT hA => by
        obtain ⟨hcn, hcu, -, -⟩ := h.author_tidy hT
        simp (disch := decide) [crlfFree_localPrefix hcn hcu, hn hA,
          hfree (hm.tidy hT hA)]
    rw [getCh_sendAll, hget, hus]
    rw [← sendAll_append] at heq hmid
    exact ⟨_, hmid, heq⟩
  obtain ⟨heq, hmid⟩ := h.broadcast hx hch
    (m := str ":" ++ hostPrefix c ++ str " JOIN " ++ name) fun hT hA => by
      obtain ⟨hcn, hcu, -, hch⟩ := h.author_tidy hT
      simp (disch := decide) [crlfFree_hostPrefix hcn hcu hch, hn hA]
  rw [hget, heq]
  show ∃ mail, _ ∧ ((s.sendAll _).derefCh ((s.sendAll _).getCh name) >>= fun ch => _) = _
  rw [derefCh_sendAll, getCh_sendAll, hget, derefCh_some hch]
  show ∃ mail, _ ∧ (if ch.topic ≠ [] then (s.sendAll _).prepareResp x _ >>= _ else _) = _
  split
  · obtain ⟨heq', hmid'⟩ := hmid.reply
      (m := str "332 " ++ c.nick ++ str " " ++ name ++ str " :" ++ ch.topic) fun hT hA => by
        obtain ⟨hcn, -, -, -⟩ := h.author_tidy hT
        simp (disch := decide) [hcn, hn hA, (h.tidy hT hA).topic name ch hch]
    rw [heq']
    rw [← sendAll_append] at hmid' ⊢
    exact hlast _ hmid'
  · exact hlast _ hmid

/-- The invitation is used up, if there was one. -/
def useInvitation (s : Server) (x : Ptr) (me : Cli) (name : Str) : Server :=
  if name ∈ me.invits then s.updCli x fun c => { c with invits := c.invits.erase name } else s

@[simp] theorem chs_useInvitation : (useInvitation s x d name).chs = s.chs := by
  unfold useInvitation
  split <;> rfl

theorem Mid.useInvitation (h : Mid s₀ x ar c s) (hcmd : CmdIs ar "JOIN") (hd : s.cliAt x = some d)
    (name : Str) : Mid s₀ x ar c (useInvitation s x d name) ∧
      ∃ d', (useInvitation s x d name).cliAt x = some d' ∧
        ∀ k, k ≠ name → (k ∈ d'.invits ↔ k ∈ d.invits) := by
  unfold FtIrc.useInvitation
  split
  · refine ⟨h.updCli hd (.joined d name hcmd), { d with invits := d.invits.erase name }, ?_,
      fun k hk => ?_⟩
    · have hkeep : KeepsAddr fun c : Cli => { c with invits := c.invits.erase name } :=
        fun _ => ⟨rfl, rfl⟩
      rw [cliAt_updCli hkeep, if_pos rfl, hd]
      rfl
    · show k ∈ d.invits.erase name ↔ _
      rw [ExtTreeSet.mem_erase, ne_eq, Std.compare_eq_iff_eq]
      exact and_iff_right fun h => hk h.symm
  · exact ⟨h, d, hd, fun _ _ => Iff.rfl⟩

/-- What `joinCh` does, apart from preparing lines: a client that is let in becomes a member, and its
invitation is used up. -/
def JoinedOne (s s' : Server) (x : Ptr) (d : Cli) (name : Str) (ch : Ch) (pass : Str) : Prop :=
  if Admits d ch name pass then
    (∀ k, s'.chs[k]? = if k = name then some { ch with clis := ch.clis.insert x } else s.chs[k]?) ∧
      ∃ d', s'.cliAt x = some d' ∧ ∀ k, k ≠ name → (k ∈ d'.invits ↔ k ∈ d.invits)
  else s'.chs = s.chs ∧ ∃ d', s'.cliAt x = some d' ∧ d'.invits = d.invits

theorem joinCh_done (h : Mid s₀ x ar c s) (hx : IsReg s₀ x) (hcmd : CmdIs ar "JOIN")
    (hnp : ¬ PartCmd ar) (hch : s.chs[name]? = some ch) (hd : s.cliAt x = some d)
    (hpass : pass ≠ [] → ∃ a, ar[2]? = some a ∧ pass ∈ splitArgToSubargs a)
    (hn : TidyArgs ar → CrlfFree name) :
    Done (fun s' => Mid s₀ x ar c s' ∧ JoinedOne s s' x d name ch pass)
      (s.joinCh x c name pass) := by
  have hget : s.getCh name = some name := getCh_self h.inv (mem_chs.mpr ⟨ch, hch⟩)
  have hrefuse : ∀ m, (TidyArgs ar → Line m) → ¬ Admits d ch name pass →
      Done (fun s' => Mid s₀ x ar c s' ∧ JoinedOne s s' x d name ch pass) (s.prepareResp x m) := by
    intro m hm hno
    obtain ⟨heq, hmid⟩ := h.reply fun _ hA => hm hA
    refine ⟨_, heq, hmid, ?_⟩
    unfold JoinedOne
    rw [if_neg hno, chs_sendAll]
    exact ⟨rfl, d.receive _, by rw [cliAt_sendAll, hd]; rfl, rfl⟩
  unfold joinCh
  rw [deref_of_cliAt h.inv hd, hget, derefCh_some hch]
  show Done _ (if ch.pass ≠ [] ∧ pass ≠ ch.pass then _ else if ch.limit ≤ ch.size then _ else
    if ch.optI = true ∧ name ∉ d.invits then _ else _)
  split
  · rename_i hno
    refine hrefuse _ (fun hA => ?_) fun hadm => hno.2 (hadm.1 hno.1)
    simp (disch := decide) [hn hA]
  · rename_i hkey
    split
    · rename_i hno
      refine hrefuse _ (fun hA => ?_) fun hadm => absurd hadm.2.1 (Nat.not_lt.mpr hno)
      simp (disch := decide) [hn hA]
    · rename_i hlim
      split
      · rename_i hno
        refine hrefuse _ (fun hA => ?_) fun hadm => hno.2 (hadm.2.2 hno.1)
        simp (disch := decide) [hn hA]
      · rename_i hinv
        push Not at hkey hlim hinv
        have hadm : Admits d ch name pass := ⟨hkey, hlim, hinv⟩
        have hjoin : ChEffect s₀ x ar s name ch { ch with clis := ch.clis.insert x } :=
          .join ch hcmd hnp hlim (fun hi => ⟨d, hd, hinv hi⟩) fun hne => by
            rw [← hkey hne]
            exact hpass (hkey hne ▸ hne)
        have hmid : Mid s₀ x ar c (s.updCh name fun ch => { ch with clis := ch.clis.insert x }) :=
          h.updCh hx hch hjoin
        have hchs : ∀ k, (s.updCh name fun ch => { ch with clis := ch.clis.insert x }).chs[k]? =
            if k = name then some { ch with clis := ch.clis.insert x } else s.chs[k]? := fun k => by
          rw [updCh_const hch, getElem?_chs_put hch]
        have hd1 : (s.updCh name fun ch => { ch with clis := ch.clis.insert x }).cliAt x = some d := hd
        obtain ⟨hmid2, d2, hd2, hinv2⟩ := hmid.useInvitation hcmd hd1 name
        have hchs2 : ∀ k, (useInvitation (s.updCh name fun ch =>
            { ch with clis := ch.clis.insert x }) x d name).chs[k]? =
            if k = name then some { ch with clis := ch.clis.insert x } else s.chs[k]? := fun k => by
          rw [chs_useInvitation, hchs k]
        obtain ⟨mail, hm, heq⟩ := joinCh_tail hmid2 hx (by rw [hchs2, if_pos rfl]) hn
        unfold setCh
        rw [hget]
        refine ⟨_, heq, hm, ?_⟩
        unfold JoinedOne
        rw [if_pos hadm]
        refine ⟨fun k => ?_, d2.receive _, by rw [cliAt_sendAll, hd2]; rfl, hinv2⟩
        rw [chs_sendAll]
        exact hchs2 k

/-! ## The loop -/

theorem Steps.keys (h : Steps s₀ x ar s) : ∀ k ∈ s₀.chs, k ∈ s.chs := by
  intro k hk
  induction h with
  | refl => exact hk
  | tail _ heff ih =>
    cases heff with
    | cli _ _ _ _ _ => exact ih
    | ch j _ _ _ _ _ => exact (mem_chs_updCh _).mpr ih
    | newCh j _ _ _ _ _ _ => exact ExtTreeMap.mem_insert.mpr (.inr ih)
    | mark _ _ _ => exact ih

/-- Preparing lines joins nothing. -/
theorem Joined.sendAll (h : Joined s₀ s x c joined) (mail : Mail) :
    Joined s₀ (s.sendAll mail) x c joined := by
  obtain ⟨d, hd, hinv⟩ := h.invits
  refine ⟨h.nodup, fun k hk => by rw [chs_sendAll]; exact h.other k hk, h.fresh, fun k hk => ?_,
    d.receive _, by rw [cliAt_sendAll, hd]; rfl, hinv⟩
  obtain ⟨ch, hch, hx⟩ := h.on k hk
  exact ⟨ch, by rw [chs_sendAll]; exact hch, hx⟩

/-- One more channel joined. -/
theorem Joined.cons (h : Joined s₀ s x c joined) (hfresh : ¬ On s₀ x name) (hj : name ∉ joined)
    (hchs : ∀ k, k ≠ name → s'.chs[k]? = s.chs[k]?) (hon : On s' x name)
    (hinv : ∃ d', s'.cliAt x = some d' ∧ ∀ d, s.cliAt x = some d → ∀ k, k ≠ name →
      (k ∈ d'.invits ↔ k ∈ d.invits)) : Joined s₀ s' x c (name :: joined) := by
  obtain ⟨d, hd, hinv₀⟩ := h.invits
  obtain ⟨d', hd', hinv⟩ := hinv
  refine ⟨List.nodup_cons.mpr ⟨hj, h.nodup⟩, fun k hk => ?_, fun k hk => ?_, fun k hk => ?_, d', hd',
    fun k hk => ?_⟩
  · obtain ⟨hkn, hkj⟩ := not_or.mp (mt List.mem_cons.mpr hk)
    rw [hchs k hkn, h.other k hkj]
  · rcases List.mem_cons.mp hk with rfl | hk
    · exact hfresh
    · exact h.fresh k hk
  · by_cases hkn : k = name
    · exact hkn ▸ hon
    · obtain ⟨ch, hch, hx⟩ := h.on k ((List.mem_cons.mp hk).resolve_left hkn)
      exact ⟨ch, by rw [hchs k hkn]; exact hch, hx⟩
  · obtain ⟨hkn, hkj⟩ := not_or.mp (mt List.mem_cons.mpr hk)
    exact (hinv d hd k hkn).trans (hinv₀ k hkj)

/-- A name that is admitted or refused. -/
theorem joinCh_spec (h : Mid s₀ x ar c s) (hx : IsReg s₀ x) (hcmd : CmdIs ar "JOIN")
    (hnp : ¬ PartCmd ar) (hJ : Joined s₀ s x c joined) (hon : ¬ On s x name)
    (hkey : s.getCh name = none ∨ name ∈ s.chs) (hname : ChName name)
    (hlist : ∃ a, ar[1]? = some a ∧ name ∈ splitArgToSubargs a)
    (hpass : pass ≠ [] → ∃ a, ar[2]? = some a ∧ pass ∈ splitArgToSubargs a) :
    Done (fun s' => Mid s₀ x ar c s' ∧
        Joined s₀ s' x c (if Admitted s₀ c name pass then name :: joined else joined))
      ((if s.getCh name = none then { s with chs := s.chs.insert name (Ch.new x) } else s).joinCh
        x c name pass) := by
  have hn : TidyArgs ar → CrlfFree name := fun hA => by
    obtain ⟨a, ha, hm⟩ := hlist
    exact subarg_free hA ha hm
  have hon₀ : ¬ On s₀ x name ∧ name ∉ joined := by
    rw [hJ.on_iff, not_or] at hon
    exact hon
  obtain ⟨d, hd, hinv⟩ := hJ.invits
  by_cases hnew : s.getCh name = none
  · -- a new channel lets its creator in
    have hfresh : ∀ k ∈ s.chs, toLower k ≠ toLower name := getCh_none_iff.mp hnew
    have hnot : s.chs[name]? = none := by
      cases hc : s.chs[name]? with
      | none => rfl
      | some ch => exact absurd rfl (hfresh name (mem_chs.mpr ⟨ch, hc⟩))
    have hadm : Admitted s₀ c name pass := by
      unfold Admitted
      rw [← hJ.other name hon₀.2, hnot]
      rfl
    have hmid : Mid s₀ x ar c { s with chs := s.chs.insert name (Ch.new x) } :=
      h.effect (.newCh name hx hcmd hnp hname hlist hfresh)
    have hch : ({ s with chs := s.chs.insert name (Ch.new x) } : Server).chs[name]? =
        some (Ch.new x) := by
      rw [getElem?_chs_insert, if_pos rfl]
    have hin : Admits d (Ch.new x) name pass :=
      ⟨fun hne => absurd rfl hne, (by decide : 1 < UINT_MAX), fun h => by cases h⟩
    rw [if_pos hnew, if_pos hadm]
    refine (joinCh_done hmid hx hcmd hnp hch hd hpass hn).mono fun s' ⟨hm, hpost⟩ => ?_
    unfold JoinedOne at hpost
    rw [if_pos hin] at hpost
    obtain ⟨hpost, d', hd', hi⟩ := hpost
    refine ⟨hm, hJ.cons hon₀.1 hon₀.2 (fun k hk => ?_) ⟨_, (hpost name).trans (if_pos rfl), ?_⟩
      ⟨d', hd', fun e he => ?_⟩⟩
    · rw [hpost, if_neg hk, getElem?_chs_insert, if_neg hk]
    · exact mem_insert_iff.mpr (.inl rfl)
    · rw [hd] at he
      cases he
      exact hi
  · obtain ⟨ch, hch⟩ := mem_chs.mp (hkey.resolve_left hnew)
    have hadm : Admitted s₀ c name pass ↔ Admits d ch name pass := by
      unfold Admitted
      rw [← hJ.other name hon₀.2, hch]
      simp only [Option.all_some, decide_eq_true_eq]
      simp only [Admits, hinv name hon₀.2]
    rw [if_neg hnew]
    refine (joinCh_done h hx hcmd hnp hch hd hpass hn).mono fun s' ⟨hm, hpost⟩ => ?_
    refine ⟨hm, ?_⟩
    unfold JoinedOne at hpost
    by_cases hin : Admits d ch name pass
    · rw [if_pos hin] at hpost
      obtain ⟨hpost, d', hd', hi⟩ := hpost
      rw [if_pos (hadm.mpr hin)]
      refine hJ.cons hon₀.1 hon₀.2 (fun k hk => by rw [hpost, if_neg hk])
        ⟨_, (hpost name).trans (if_pos rfl), mem_insert_iff.mpr (.inl rfl)⟩
        ⟨d', hd', fun e he => ?_⟩
      rw [hd] at he
      cases he
      exact hi
    · rw [if_neg hin] at hpost
      obtain ⟨hpost, d', hd', hi⟩ := hpost
      rw [if_neg fun h => hin (hadm.mp h)]
      refine ⟨hJ.nodup, fun k hk => by rw [hpost]; exact hJ.other k hk, hJ.fresh, fun k hk => ?_,
        d', hd', fun k hk => by rw [hi]; exact hinv k hk⟩
      unfold On
      rw [hpost]
      exact hJ.on k hk

/-- **The loop of `execJoin`**: it succeeds exactly if `JoinSafe`, and has then joined `joins`. -/
theorem joinLoop_spec (hx : IsReg s₀ x) (hcmd : CmdIs ar "JOIN") (hnp : ¬ PartCmd ar)
    (ha1 : ar[1]? = some a1) : ∀ (names passes joined : List Str) (s : Server),
    (∀ n ∈ names, n ∈ splitArgToSubargs a1) →
    (∀ p ∈ passes, ∃ a, ar[2]? = some a ∧ p ∈ splitArgToSubargs a) →
    Mid s₀ x ar c s → Joined s₀ s x c joined →
    Decides Fault.isNull (JoinSafe s₀ x c joined names passes)
      (fun s' => Mid s₀ x ar c s' ∧ Joined s₀ s' x c (joins s₀ x c joined names passes))
      (joinLoop x c a1 names passes s)
  | [], _, _, _, _, _, h, hJ => (done_ok ⟨h, hJ⟩).decides trivial
  | name :: names, passes, joined, s, hnames, hpasses, h, hJ => by
    have hnick : ¬ CmdIs ar "NICK" := fun hn => absurd (hn.unique hcmd) (by decide)
    have hmem : name ∈ splitArgToSubargs a1 := hnames name (by simp)
    have hfree : TidyArgs ar → CrlfFree name := fun hA => subarg_free hA ha1 hmem
    have hnames' : ∀ n ∈ names, n ∈ splitArgToSubargs a1 := fun n hn => hnames n (by simp [hn])
    have hrest := fun passes joined s hp h hJ =>
      joinLoop_spec hx hcmd hnp ha1 names passes joined s hnames' hp h hJ
    have hreply : ∀ m, (TidyArgs ar → Line m) →
        Decides Fault.isNull (JoinSafe s₀ x c joined names passes)
          (fun s' => Mid s₀ x ar c s' ∧ Joined s₀ s' x c (joins s₀ x c joined names passes))
          (s.prepareResp x m >>= joinLoop x c a1 names passes) := by
      intro m hm
      obtain ⟨heq, hmid⟩ := h.reply fun _ hA => hm hA
      rw [heq]
      exact hrest passes joined _ hpasses hmid (hJ.sendAll _)
    unfold joinLoop JoinSafe joins
    rw [hJ.nbChannels, badChName_ok]
    by_cases hmany : MAX_CHS_PER_USER - 1 < s₀.nbChannels x + joined.length
    · rw [if_pos hmany, if_pos hmany, if_pos hmany]
      obtain ⟨heq, hmid⟩ := h.reply
        (m := str "405 " ++ a1 ++ str " :You have joined too many channels") fun _ hA => by
          simp (disch := decide) [tidyArgs_get hA ha1]
      exact Done.decides ⟨_, heq, hmid, hJ.sendAll _⟩ trivial
    · rw [if_neg hmany, if_neg hmany, if_neg hmany]
      show Decides _ _ _ (if badName name = true then _ >>= _ else s.getCliOnCh c.nick name >>= _)
      by_cases hbad : badName name = true
      · rw [if_pos hbad, if_pos hbad, if_pos (.inl hbad)]
        exact hreply _ fun hA => by simp (disch := decide) [hfree hA]
      · rw [if_neg hbad, if_neg hbad]
        have hname : ChName name :=
          chName_of_badName (by simpa using hbad) (splitArgToSubargs_comma hmem)
        have hkeys : ∀ k, k ∈ s₀.chs.keys ++ joined ↔ k ∈ s.chs := fun k => by
          rw [List.mem_append, ExtTreeMap.mem_keys, hJ.mem_iff h.steps.keys]
        simp only [hkeys]
        by_cases hspell : ∀ k ∈ s.chs, toLower k = toLower name → k = name
        · rw [and_iff_right hspell]
          have hkey : s.getCh name = none ∨ name ∈ s.chs := by
            cases hg : s.getCh name with
            | none => exact .inl rfl
            | some k =>
              obtain ⟨hk, hlow⟩ := getCh_some hg
              exact .inr (hspell k hk hlow ▸ hk)
          have hscan : s.getCliOnCh c.nick name = .ok (if On s x name then x else NULL) := by
            rcases hkey with hg | hk
            · have hno : ¬ On s x name := fun ho =>
                getCh_none_iff.mp hg name (mem_of_on ho) rfl
              rw [getCliOnCh_none hg, if_neg hno]
            · obtain ⟨ch, hch⟩ := mem_chs.mp hk
              rw [h.getCliOnCh_author hnick hch]
              simp [On, hch]
          rw [hscan]
          by_cases hon : On s x name
          · have hon' := hJ.on_iff.mp hon
            rw [if_pos hon, if_pos hon', if_pos (.inr hon')]
            show Decides _ _ _ (if x ≠ NULL then _ >>= _ else _)
            rw [if_pos h.author_ne_null]
            exact hreply _ fun hA => by simp (disch := decide) [hfree hA]
          · have hon' : ¬ (On s₀ x name ∨ name ∈ joined) := fun ho => hon (hJ.on_iff.mpr ho)
            have hno : ¬ (badName name = true ∨ On s₀ x name ∨ name ∈ joined) :=
              fun ho => hon' (ho.resolve_left hbad)
            rw [if_neg hon, if_neg hon', if_neg hno]
            have hkeypos : passes.headD [] ≠ [] →
                ∃ a, ar[2]? = some a ∧ passes.headD [] ∈ splitArgToSubargs a := by
              cases passes with
              | nil => exact fun h0 => absurd rfl h0
              | cons p ps => exact fun _ => hpasses p (by simp)
            have htail : ∀ p ∈ passes.tail, ∃ a, ar[2]? = some a ∧ p ∈ splitArgToSubargs a :=
              fun p hp => hpasses p (List.mem_of_mem_tail hp)
            have hjoin := joinCh_spec h hx hcmd hnp hJ hon hkey hname ⟨a1, ha1, hmem⟩ hkeypos
            show Decides _ _ _ ((if s.getCh name = none then _ else s).joinCh x c name _ >>= _)
            obtain ⟨s', heq, hmid, hJ'⟩ := hjoin
            rw [heq]
            have hnext := hrest passes.tail _ s' htail hmid hJ'
            by_cases hadm : Admitted s₀ c name (passes.headD [])
            · rw [if_pos hadm] at hnext
              rw [if_pos hadm, if_pos hadm]
              exact hnext
            · rw [if_neg hadm] at hnext
              rw [if_neg hadm, if_neg hadm]
              exact hnext
        · refine Fails.decides (Fails.bind ?_) fun hall => hspell hall.1
          push Not at hspell
          obtain ⟨k, hk, hlow, hne⟩ := hspell
          have hget : s.getCh name ≠ none := fun h0 => getCh_none_iff.mp h0 k hk hlow
          have hnk : name ∉ s.chs := fun hm => hne (h.inv.ch_inj k hk name hm hlow)
          rw [getCliOnCh_misspelt hget hnk]
          exact fails_error (.inr (.inl rfl))

/-! ## JOIN 0 -/

/-- The channels of a client, in the order of iteration. -/
def chsOf (s : Server) (x : Ptr) : List Str := s.chs.keys.filter fun k => On s x k

theorem mem_chsOf : k ∈ chsOf s x ↔ On s x k := by
  simp only [chsOf, List.mem_filter, ExtTreeMap.mem_keys, decide_eq_true_eq,
    and_iff_right_of_imp mem_of_on]

/-- The list that `JOIN 0` stands for. -/
def allNames (s : Server) (x : Ptr) : Str := ((chsOf s x).map (· ++ [COMMA])).flatten.dropLast

theorem splitArgToSubargs_allNames (hI : Inv s) : splitArgToSubargs (allNames s x) = chsOf s x := by
  refine splitArgToSubargs_join fun k hk => ?_
  have hname := hI.ch_name k (mem_of_on (mem_chsOf.mp hk))
  refine ⟨fun h0 => ?_, hname.comma⟩
  have := hname.long
  rw [h0, List.length_nil] at this
  omega

theorem joinedNames_ok (h : Mid s₀ x ar c s) (hnick : ¬ CmdIs ar "NICK") : ∀ ks : List Str,
    (∀ k ∈ ks, k ∈ s.chs) →
    s.joinedNames c.nick ks = .ok ((ks.filter fun k => On s x k).map (· ++ [COMMA])).flatten
  | [], _ => rfl
  | k :: ks, hks => by
    have ih := joinedNames_ok h hnick ks fun k hk => hks k (by simp [hk])
    obtain ⟨ch, hch⟩ := mem_chs.mp (hks k (by simp))
    have hOn : On s x k ↔ x ∈ ch.clis := on_iff hch
    unfold joinedNames
    rw [h.getCliOnCh_author hnick hch, ih]
    show Except.ok (if (if x ∈ ch.clis then x else NULL) ≠ NULL then _ else _) = _
    by_cases hx : x ∈ ch.clis
    · rw [if_pos hx, if_pos h.author_ne_null, List.filter_cons_of_pos (by simpa using hOn.mpr hx)]
      rw [List.map_cons, List.flatten_cons, show str "," = [COMMA] by decide]
    · rw [if_neg hx, if_neg (by simp), List.filter_cons_of_neg (by simpa using mt hOn.mp hx)]

theorem crlfFree_allNames (hT : Tidy s) : CrlfFree (allNames s x) := by
  have hflat : ∀ ks : List Str, (∀ k ∈ ks, CrlfFree k) →
      CrlfFree (ks.map (· ++ [COMMA])).flatten := by
    intro ks
    induction ks with
    | nil => exact fun _ => crlfFree_nil
    | cons k ks ih =>
      intro hks
      rw [List.map_cons, List.flatten_cons, List.append_assoc,
        show [COMMA] = str "," by decide, crlfFree_append_str_append (by decide)]
      exact ⟨hks k (by simp), ih fun j hj => hks j (by simp [hj])⟩
  refine (hflat _ fun k hk => ?_).sub (List.dropLast_prefix _).isInfix
  exact hT.key k (mem_of_on (mem_chsOf.mp hk))

/-- `JOIN 0` goes well exactly for a client on at most one channel: the list of two names is not the
name of a channel. -/
theorem partSafe_allNames (hI : Inv s) :
    PartSafe s x (allNames s x) (splitArgToSubargs (allNames s x)) ↔ s.nbChannels x ≤ 1 := by
  rw [splitArgToSubargs_allNames hI, nbChannels_eq]
  show _ ↔ (chsOf s x).length ≤ 1
  have hself : ∀ k ∈ chsOf s x, s.getCh k = some k := fun k hk =>
    getCh_self hI (mem_of_on (mem_chsOf.mp hk))
  cases hl : chsOf s x with
  | nil => simp [PartSafe]
  | cons k ks =>
    have hk : k ∈ chsOf s x := by rw [hl]; simp
    cases ks with
    | nil =>
      have hall : allNames s x = k := by simp [allNames, hl]
      rw [hall]
      simp [PartSafe, hself k hk, mem_of_on (mem_chsOf.mp hk)]
    | cons k' ks =>
      have hcomma : COMMA ∈ allNames s x := by
        unfold allNames
        rw [hl, List.map_cons, List.flatten_cons, List.map_cons, List.flatten_cons,
          List.dropLast_append_of_ne_nil (by simp)]
        simp
      have hno : s.getCh (allNames s x) = none := by
        refine getCh_none_iff.mpr fun j hj hlow => (hI.ch_name j hj).comma ?_
        rw [← mem_toLower_iff (by decide), hlow, mem_toLower_iff (by decide)]
        exact hcomma
      refine iff_of_false (fun hall => ?_) (by simp)
      exact (hall k (by simp) (by rw [hself k hk]; simp)).2 (mem_chsOf.mp hk) hno

/-! ## The command -/

/-- The keys given with the names. -/
def joinKeys (ar : List Str) : List Str := ((ar[2]?).map splitArgToSubargs).getD []

/-- What `JOIN` needs in order not to fail. -/
def JoinOk (s : Server) (x : Ptr) (ar : List Str) : Prop :=
  ∀ c, s.cliAt x = some c → c.registered = true → ∀ a1 ∈ ar[1]?,
    if ar.length = 2 ∧ a1 = str "0" then s.nbChannels x ≤ 1
    else tooManyTargets (splitArgToSubargs a1) = false →
      JoinSafe s x c [] (splitArgToSubargs a1) (joinKeys ar)

theorem joinOk_iff (hx : s₀.cliAt x = some c) (hreg : c.registered = true) (ha1 : ar[1]? = some a1) :
    JoinOk s₀ x ar ↔ if ar.length = 2 ∧ a1 = str "0" then s₀.nbChannels x ≤ 1
      else tooManyTargets (splitArgToSubargs a1) = false →
        JoinSafe s₀ x c [] (splitArgToSubargs a1) (joinKeys ar) := by
  simp only [JoinOk, hx, ha1, Option.some.injEq, forall_eq', hreg, true_imp_iff, Option.mem_def]

theorem mem_joinKeys (h : k ∈ joinKeys ar) : ∃ a, ar[2]? = some a ∧ k ∈ splitArgToSubargs a := by
  unfold joinKeys at h
  cases ha : ar[2]? with
  | none => simp [ha] at h
  | some a => exact ⟨a, rfl, by simpa [ha] using h⟩

theorem Joined.refl (hc : s.cliAt x = some c) : Joined s s x c [] :=
  ⟨List.nodup_nil, fun _ _ => rfl, fun _ hk => absurd hk List.not_mem_nil,
    fun _ hk => absurd hk List.not_mem_nil, c, hc, fun _ _ => Iff.rfl⟩

/-- A `JOIN` of a list is no `PART`. -/
theorem not_partCmd (hcmd : CmdIs ar "JOIN") (ha1 : ar[1]? = some a1)
    (hz : ¬ (ar.length = 2 ∧ a1 = str "0")) : ¬ PartCmd ar := by
  rintro (hc | ⟨-, hlen, h0⟩)
  · exact absurd (hc.unique hcmd) (by decide)
  · rw [ha1] at h0
    exact hz ⟨hlen, Option.some.inj h0⟩

/-- What a registered client does with a list: it is refused, or it is the loop. -/
theorem execJoin_eq (hI : Inv s) (hc : s.cliAt x = some c) (hreg : c.registered = true)
    (ha1 : ar[1]? = some a1) (hz : ¬ (ar.length = 2 ∧ a1 = str "0")) :
    s.execJoin x ar = if tooManyTargets (splitArgToSubargs a1) = true then
        s.prepareResp x (a1 ++ str " :407 recipients. Too many targets.")
      else joinLoop x c a1 (splitArgToSubargs a1) (joinKeys ar) s := by
  have hlt := (List.getElem?_eq_some_iff.mp ha1).1
  unfold execJoin
  rw [deref_of_cliAt hI hc]
  show (if c.registered = false then _ else if ar.length < 2 then _ else arg ar 1 >>= _) = _
  rw [if_neg (by simp [hreg]), if_neg (by omega), arg_ok ha1]
  show (if ar.length = 2 ∧ a1 = str "0" then _ else
    if tooManyTargets (splitArgToSubargs a1) = true then _ else
      if 3 ≤ ar.length then arg ar 2 >>= _ else _) = _
  rw [if_neg hz]
  split
  · rfl
  · by_cases h3 : 3 ≤ ar.length
    · obtain ⟨a2, ha2⟩ := exists_arg ar 2 (by omega)
      have hkeys : joinKeys ar = splitArgToSubargs a2 := by simp [joinKeys, ha2]
      rw [if_pos h3, arg_ok ha2, hkeys]
      rfl
    · have hkeys : joinKeys ar = [] := by
        simp [joinKeys, List.getElem?_eq_none (by omega : ar.length ≤ 2)]
      rw [if_neg h3, hkeys]
      rfl

/-- The channels a `JOIN` that is not refused as a whole adds. -/
theorem execJoin_list (h : Mid s₀ x ar c s₀) (hcmd : CmdIs ar "JOIN") (hreg : c.registered = true)
    (ha1 : ar[1]? = some a1) (hz : ¬ (ar.length = 2 ∧ a1 = str "0"))
    (hfew : tooManyTargets (splitArgToSubargs a1) = false) :
    Decides Fault.isNull (JoinSafe s₀ x c [] (splitArgToSubargs a1) (joinKeys ar))
      (fun s => Mid s₀ x ar c s ∧
        Joined s₀ s x c (joins s₀ x c [] (splitArgToSubargs a1) (joinKeys ar)))
      (s₀.execJoin x ar) := by
  rw [execJoin_eq h.inv h.author₀ hreg ha1 hz, if_neg (by simp [hfew])]
  exact joinLoop_spec ((isReg_iff h.author₀).mpr hreg) hcmd (not_partCmd hcmd ha1 hz) ha1
    (splitArgToSubargs a1) (joinKeys ar) [] s₀ (fun _ hn => hn) (fun _ hp => mem_joinKeys hp) h
    (.refl h.author₀)

theorem execJoin_spec (h : Mid s₀ x ar c s₀) (hcmd : CmdIs ar "JOIN") :
    Decides Fault.isNull (JoinOk s₀ x ar) (Mid s₀ x ar c) (s₀.execJoin x ar) := by
  have hnick : ¬ CmdIs ar "NICK" := fun hn => absurd (hn.unique hcmd) (by decide)
  have hd := deref_of_cliAt h.inv h.author₀
  by_cases hreg : c.registered = true
  · by_cases hlen : ar.length < 2
    · unfold execJoin
      rw [hd]
      show Decides _ _ _ (if c.registered = false then _ else if ar.length < 2 then _ else
        arg ar 1 >>= _)
      rw [if_neg (by simp [hreg]), if_pos hlen]
      refine (h.reply_done fun _ _ => by simp (disch := decide)).decides fun _ _ _ a ha => ?_
      have := (List.getElem?_eq_some_iff.mp ha).1
      omega
    · obtain ⟨a1, ha1⟩ := exists_arg ar 1 (by omega)
      by_cases hz : ar.length = 2 ∧ a1 = str "0"
      · have hpart : PartCmd ar := .inr ⟨hcmd, hz.1, hz.2 ▸ ha1⟩
        have hset : (ar.set 1 (allNames s₀ x))[1]? = some (allNames s₀ x) := by
          rw [List.getElem?_set_self (by omega)]
        unfold execJoin
        rw [hd]
        show Decides _ _ _ (if c.registered = false then _ else if ar.length < 2 then _ else
          arg ar 1 >>= _)
        rw [if_neg (by simp [hreg]), if_neg hlen, arg_ok ha1]
        show Decides _ _ _ (if ar.length = 2 ∧ a1 = str "0" then
          s₀.joinedNames c.nick s₀.chs.keys >>= _ else _)
        rw [if_pos hz, joinedNames_ok h hnick _ fun k hk => ExtTreeMap.mem_keys.mp hk]
        refine (execPart_spec (ar.set 1 (allNames s₀ x)) h hpart hnick fun hT hA a ha => ?_).congr ?_
        · rcases List.mem_or_eq_of_mem_set ha with ha | rfl
          · exact hA a ha
          · exact crlfFree_allNames hT
        · rw [joinOk_iff h.author₀ hreg ha1, if_pos hz, ← partSafe_allNames h.inv]
          simp only [PartOk, isReg_iff h.author₀, hreg, hset, Option.mem_def, Option.some.injEq,
            forall_eq', true_imp_iff]
      · cases hmany : tooManyTargets (splitArgToSubargs a1) with
        | true =>
          rw [execJoin_eq h.inv h.author₀ hreg ha1 hz, if_pos hmany]
          refine (h.reply_done fun _ hA => ?_).decides ?_
          · simp (disch := decide) [tidyArgs_get hA ha1]
          · rw [joinOk_iff h.author₀ hreg ha1, if_neg hz, hmany]
            exact fun h0 => by cases h0
        | false =>
          refine ((execJoin_list h hcmd hreg ha1 hz hmany).mono fun s hs => hs.1).congr ?_
          rw [joinOk_iff h.author₀ hreg ha1, if_neg hz, hmany]
          simp
  · unfold execJoin
    rw [hd]
    show Decides _ _ _ (if c.registered = false then _ else _)
    rw [if_pos (by simpa using hreg)]
    refine h.notRegistered.decides fun d hd' hr => ?_
    rw [h.author₀] at hd'
    cases hd'
    exact absurd hr hreg

end FtIrc
