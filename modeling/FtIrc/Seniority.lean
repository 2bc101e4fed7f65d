import FtIrc.Calls

/-!
# Who inherits a channel

`eraseCliFromCh` makes the first of the members operator when the last operator has left, the first in the
order of the addresses of their records.  `Logged` is the server with a history that it does not keep: the
members of each channel in the order in which they have joined.

Principal result: `senior_inherits`.  At every call the member that inherits is the one that has been on the
channel longest exactly if, of those who stay then, it is also the one with the lowest address.
-/

namespace FtIrc

open Std Outcome Server

variable {p q : Ptr} {k : Str} {ch : Ch} {pass : Str} {lfd : Nat} {cfg cfg' : Config} {i : Input}
  {before after : List Ptr}

/-! ## The history of the members -/

/-- The server, and the members of each channel in the order in which they have joined. -/
structure Logged where
  cfg : Config
  order : ExtTreeMap Str (List Ptr)

/-- The members of the channel, the one that has been there longest in front. -/
def Logged.members (l : Logged) (k : Str) : List Ptr := (l.order[k]?).getD []

/-- Of those before, whoever is still a member, and behind them who has come. -/
def ranked (before : List Ptr) (ch : Ch) : List Ptr :=
  before.filter (fun p => decide (p ∈ ch.clis)) ++ ch.clis.toList.filter fun p => decide (p ∉ before)

def Logged.log (l : Logged) (cfg : Config) : Logged where
  cfg := cfg
  order := cfg.srv.chs.map fun k ch => ranked (l.members k) ch

/-- One transition. -/
def stepLogged (l : Logged) (i : Input) : Except Halt Logged :=
  match step l.cfg i with
  | .error e => .error e
  | .ok cfg => .ok (l.log cfg)

def startLogged (pass : Str) (lfd : Nat) : Logged := ⟨start pass lfd, ∅⟩

variable {l l' : Logged}

theorem stepLogged_ok : stepLogged l i = .ok l' ↔ ∃ cfg, step l.cfg i = .ok cfg ∧ l' = l.log cfg := by
  unfold stepLogged
  cases step l.cfg i with
  | error e => simp
  | ok cfg => simp [eq_comm]

theorem members_log (hch : cfg.srv.chs[k]? = some ch) : (l.log cfg).members k = ranked (l.members k) ch := by
  unfold Logged.members Logged.log
  rw [ExtTreeMap.getElem?_map, hch]
  rfl

/-- The history is that of the server: whoever is recorded is a member, and once. -/
structure Recorded (l : Logged) : Prop where
  good : Good l.cfg
  mem : ∀ k ch p, l.cfg.srv.chs[k]? = some ch → (p ∈ l.members k ↔ p ∈ ch.clis)
  nodup : ∀ k, (l.members k).Nodup

theorem mem_ranked : p ∈ ranked before ch ↔ p ∈ ch.clis := by
  unfold ranked
  simp only [List.mem_append, List.mem_filter, decide_eq_true_eq, ExtTreeSet.mem_toList]
  by_cases hp : p ∈ before
  · simp [hp]
  · simp [hp]

theorem nodup_ranked (h : before.Nodup) : (ranked before ch).Nodup := by
  refine List.nodup_append.mpr ⟨h.filter _, nodup_toList.filter _, fun p hp q hq heq => ?_⟩
  subst heq
  exact (of_decide_eq_true (List.mem_filter.mp hq).2) (List.mem_filter.mp hp).1

theorem recorded_start : Recorded (startLogged pass lfd) where
  good := good_start pass lfd
  mem := fun k ch p hch => by cases hch
  nodup := fun k => List.nodup_nil

theorem recorded_step (h : Recorded l) (hstep : stepLogged l i = .ok l') : Recorded l' := by
  obtain ⟨cfg, hcfg, rfl⟩ := stepLogged_ok.mp hstep
  refine ⟨good_step _ i _ h.good hcfg, fun k ch p hch => ?_, fun k => ?_⟩
  · have hch : cfg.srv.chs[k]? = some ch := hch
    rw [members_log hch, mem_ranked]
  · cases hch : cfg.srv.chs[k]? with
    | none =>
      have hnil : (l.log cfg).members k = [] := by
        unfold Logged.members Logged.log
        rw [ExtTreeMap.getElem?_map, hch]
        rfl
      rw [hnil]
      exact List.nodup_nil
    | some ch =>
      rw [members_log hch]
      exact nodup_ranked (h.nodup k)

theorem recorded_run {is : List Input} (hrun : Runs.run stepLogged is (startLogged pass lfd) = .ok l) :
    Recorded l :=
  Runs.run_invariant (fun _ _ _ h hstep => recorded_step h hstep) is _ l recorded_start hrun

/-- A step brings at most one client to a channel, so that nobody is recorded in the wrong place. -/
theorem one_joins (hg : Good cfg) (hstep : step cfg i = .ok cfg') (hp : On cfg'.srv p k) (hq : On cfg'.srv q k)
    (hp₀ : ¬ On cfg.srv p k) (hq₀ : ¬ On cfg.srv q k) : p = q := by
  obtain ⟨s, phase⟩ := cfg
  obtain ⟨s', phase'⟩ := cfg'
  have hI : Inv s := hg.inv
  have hmove : Move s phase i s' phase' := move_of_step hstep
  rcases hmove.cmd_or with ⟨x, line, lines, todo, rfl, hs⟩ | hno
  · obtain ⟨⟨c, hc⟩, -⟩ := hg.author x (line :: lines) todo rfl
    obtain ⟨u, -, hs', -, -, hsteps⟩ := execLine_run hI hc hs
    have hon : ∀ {r}, On s' r k → On u r k := fun hr => (on_congr (by rw [hs', chs_note])).mp hr
    have hauthor : ∀ {r}, On s' r k → ¬ On s r k → r = x := fun hr hr₀ =>
      ((hsteps.on.1 (hon hr)).resolve_left hr₀).1
    rw [hauthor hp hp₀, hauthor hq hq₀]
  · exact absurd (hmove.on hI hno hp) hp₀

/-! ## The law -/

/-- The call has the member that has been there longest succeed: if the last operators leave with it while others
stay, this one of them is the operator. -/
def Succeeds (l : Logged) (call : Erasure) : Prop :=
  ∃ s', call.srv.eraseCliFromCh call.nick call.chName = .ok s' ∧
    ∀ k ch ch', call.srv.getCh call.chName = some k → call.srv.chs[k]? = some ch → s'.chs[k]? = some ch' →
      (∃ a, a ∈ ch.adms) → (∀ a ∈ ch.adms, a ∉ ch'.clis) → (∃ p, p ∈ ch'.clis) →
      ∃ y, ((l.members k).filter fun p => decide (p ∈ ch'.clis)).head? = some y ∧ ∀ p, p ∈ ch'.adms ↔ p = y

/-- When `before` have left the channel, `p` is the last operator: of those there were, or the one promoted since. -/
def LastOperator (ch : Ch) (before : List Ptr) (p : Ptr) : Prop :=
  (p ∈ ch.adms ∧ p ∉ before ∧ ∀ a ∈ ch.adms, a ∉ before → a = p) ∨
  (before ≠ [] ∧ (∀ a ∈ ch.adms, a ∈ before) ∧ FirstLeft ch (fun q => decide (q ∈ before)) p)

/-- If `p` is the last operator when its turn comes, behind `before`, then the first of those who stay has been there
longest. -/
def LowestIsSenior (l : Logged) (k : Str) (ch : Ch) (before : List Ptr) (p : Ptr) : Prop :=
  LastOperator ch before p → ∀ y, FirstLeft ch (fun q => decide (q ∈ before ++ [p])) y →
    ((l.members k).filter fun q => decide (q ∉ before ++ [p])).head? = some y

/-- The members when `before` have left. -/
theorem mem_clis_foldl_drop (before : List Ptr) : p ∈ (before.foldl Ch.drop ch).clis ↔ p ∈ ch.clis ∧ p ∉ before := by
  by_cases hne : before = []
  · subst hne
    simp
  · rw [foldl_drop hne, mem_clis_leave, decide_eq_false_iff_not]

theorem adms_foldl_drop_subset (before : List Ptr) (hadm : ∀ q ∈ ch.adms, q ∈ ch.clis) :
    ∀ q ∈ (before.foldl Ch.drop ch).adms, q ∈ (before.foldl Ch.drop ch).clis := by
  induction before generalizing ch with
  | nil => exact hadm
  | cons p before ih => exact ih (adms_drop_subset hadm)

theorem lastOperator_iff : LastOperator ch before p ↔
    p ∈ (before.foldl Ch.drop ch).adms ∧ ∀ a ∈ (before.foldl Ch.drop ch).adms, a = p := by
  unfold LastOperator
  by_cases hne : before = []
  · subst hne
    simp
  rw [foldl_drop hne]
  simp only [mem_adms_leave, decide_eq_false_iff_not, decide_eq_true_eq, ne_eq, hne, not_false_eq_true, true_and]
  constructor
  · rintro (⟨hp, hstill, honly⟩ | ⟨hall, hfirst⟩)
    · refine ⟨.inl ⟨hp, hstill⟩, ?_⟩
      rintro a (⟨ha, hstay⟩ | ⟨hall, -⟩)
      · exact honly a ha hstay
      · exact absurd (hall p hp) hstill
    · refine ⟨.inr ⟨hall, hfirst⟩, ?_⟩
      rintro a (⟨ha, hstay⟩ | ⟨-, ha⟩)
      · exact absurd (hall a ha) hstay
      · exact ha.unique hfirst
  · rintro ⟨⟨hp, hstill⟩ | hpromoted, honly⟩
    · exact .inl ⟨hp, hstill, fun a ha hstay => honly a (.inl ⟨ha, hstay⟩)⟩
    · exact .inr hpromoted

/-- The first of those who stay when `p` goes after `before`. -/
theorem firstLeft_drop : FirstLeft (before.foldl Ch.drop ch) (fun q => decide (q = p)) q ↔
    FirstLeft ch (fun q => decide (q ∈ before ++ [p])) q := by
  unfold FirstLeft
  simp only [mem_clis_foldl_drop, decide_eq_false_iff_not, List.mem_append, List.mem_singleton, not_or, and_imp]
  tauto

/-- **One call.** -/
theorem succeeds_call (h : Recorded l) (hch : l.cfg.srv.chs[k]? = some ch) {call : Erasure}
    (ht : call.Takes k (before.foldl Ch.drop ch) p) : Succeeds l call ↔ LowestIsSenior l k ch before p := by
  have hadm := adms_foldl_drop_subset before (h.good.inv.adm k ch hch)
  set now := before.foldl Ch.drop ch with hnow
  have hentry : (call.srv.updCh k fun _ => now.drop p).chs[k]? = some (now.drop p) := by
    rw [getElem?_chs_put ht.entry, if_pos rfl]
  have hstay : ∀ q, q ∈ (now.drop p).clis ↔ q ∈ ch.clis ∧ q ∉ before ++ [p] := fun q => by
    rw [clis_drop, mem_erase_iff, hnow, mem_clis_foldl_drop, List.mem_append, List.mem_singleton]
    tauto
  have hmembers : (l.members k).filter (fun q => decide (q ∈ (now.drop p).clis)) =
      (l.members k).filter fun q => decide (q ∉ before ++ [p]) := by
    refine List.filter_congr fun q hq => ?_
    rw [decide_eq_decide, hstay, and_iff_right ((h.mem k ch q hch).mp hq)]
  -- the operators afterwards, if `p` was the last one
  have hheir : LastOperator ch before p → ∀ y, FirstLeft ch (fun q => decide (q ∈ before ++ [p])) y →
      ∀ q, q ∈ (now.drop p).adms ↔ q = y := by
    intro hlast y hy q
    obtain ⟨-, honly⟩ := lastOperator_iff.mp hlast
    rw [drop_eq_leave, mem_adms_leave]
    simp only [decide_eq_false_iff_not, decide_eq_true_eq]
    rw [or_iff_right (fun hq => hq.2 (honly q hq.1)), and_iff_right honly, firstLeft_drop]
    exact ⟨fun hq => hq.unique hy, fun hq => hq ▸ hy⟩
  constructor
  · rintro ⟨s', hs', hlaw⟩ hlast y hy
    rw [ht.erase] at hs'
    cases hs'
    obtain ⟨hp, honly⟩ := lastOperator_iff.mp hlast
    obtain ⟨z, hz, hadms⟩ := hlaw k now _ ht.key ht.entry hentry ⟨p, hp⟩
      (fun a ha hin => ((hstay a).mp hin).2 (by simp [honly a ha]))
      ⟨y, (hstay y).mpr ⟨hy.1, of_decide_eq_false hy.2.1⟩⟩
    rw [hmembers] at hz
    rw [hz, ← (hadms y).mp ((hheir hlast y hy y).mpr rfl)]
  · intro hcond
    refine ⟨_, ht.erase, fun j now' ch' hj hnow' hch' hop hgone hsome => ?_⟩
    rw [ht.key] at hj
    cases hj
    rw [ht.entry] at hnow'
    cases hnow'
    rw [hentry] at hch'
    cases hch'
    have honly : ∀ a ∈ now.adms, a = p := fun a ha => by
      by_contra hne
      refine hgone a ha ?_
      rw [clis_drop, mem_erase_iff]
      exact ⟨hne, hadm a ha⟩
    obtain ⟨a, ha⟩ := hop
    have hlast : LastOperator ch before p := lastOperator_iff.mpr ⟨honly a ha ▸ ha, honly⟩
    obtain ⟨r, hr⟩ := hsome
    obtain ⟨hr, hrstay⟩ := (hstay r).mp hr
    obtain ⟨y, hy⟩ := exists_first (D := fun q => decide (q ∈ before ++ [p])) ⟨r, hr, decide_eq_false hrstay⟩
    exact ⟨y, by rw [hmembers]; exact hcond hlast y hy, hheir hlast y hy⟩

/-- **Who inherits**: the calls of one step. -/
theorem succeeds_iff (h : Recorded l) : (∀ call, Erases l.cfg call → Succeeds l call) ↔
    ∀ (k : Str) (ch : Ch) (before : List Ptr) (p : Ptr) (after : List Ptr), l.cfg.srv.chs[k]? = some ch →
      takenOff l.cfg k = before ++ p :: after → LowestIsSenior l k ch before p := by
  constructor
  · intro hlaw k ch before p after hch htaken hlast
    have hon : p ∈ ch.clis ∧ p ∉ before := by
      rcases hlast with ⟨hp, hstill, -⟩ | ⟨-, -, hp, hstill, -⟩
      · exact ⟨h.good.inv.adm k ch hch p hp, hstill⟩
      · exact ⟨hp, of_decide_eq_false hstill⟩
    obtain ⟨call, hcall, ht⟩ := takenOff_call h.good hch htaken hon.1 hon.2
    exact (succeeds_call h hch ht).mp (hlaw call hcall) hlast
  · intro hlow call hcall
    obtain ⟨k, ch, before, p, after, hch, htaken, ht⟩ := call_takenOff h.good hcall
    exact (succeeds_call h hch ht).mpr (hlow k ch before p after hch htaken)

/-! ## The runs -/

/-- The log is one of the server, and every run of the server has one. -/
theorem run_logged : ∀ (is : List Input) (l : Logged),
    (∃ l', Runs.run stepLogged is l = .ok l' ∧ l'.cfg = cfg) ↔ Runs.run step is l.cfg = .ok cfg
  | [], l => by simp [Runs.run]
  | i :: is, l => by
    simp only [Runs.run_cons_ok, stepLogged_ok]
    constructor
    · rintro ⟨l', ⟨t, ⟨cfg₁, hstep, rfl⟩, hrun⟩, hl'⟩
      exact ⟨cfg₁, hstep, (run_logged is (l.log cfg₁)).mp ⟨l', hrun, hl'⟩⟩
    · rintro ⟨cfg₁, hstep, hrun⟩
      obtain ⟨l', hrun, hl'⟩ := (run_logged is (l.log cfg₁)).mpr hrun
      exact ⟨l', ⟨_, ⟨cfg₁, hstep, rfl⟩, hrun⟩, hl'⟩

/-- **Who inherits a channel**, at every call of `eraseCliFromCh` in every run: the member that has been there
longest, exactly if the first of those who stay is this one. -/
theorem senior_inherits {is : List Input} (hrun : Runs.run stepLogged is (startLogged pass lfd) = .ok l) :
    (∀ call, Erases l.cfg call → ∃ (k : Str) (ch : Ch) (before : List Ptr) (p : Ptr) (after : List Ptr),
      l.cfg.srv.chs[k]? = some ch ∧ takenOff l.cfg k = before ++ p :: after ∧
      call.Takes k (before.foldl Ch.drop ch) p ∧ (Succeeds l call ↔ LowestIsSenior l k ch before p)) ∧
    ((∀ call, Erases l.cfg call → Succeeds l call) ↔
      ∀ (k : Str) (ch : Ch) (before : List Ptr) (p : Ptr) (after : List Ptr), l.cfg.srv.chs[k]? = some ch →
        takenOff l.cfg k = before ++ p :: after → LowestIsSenior l k ch before p) := by
  have h := recorded_run hrun
  refine ⟨fun call hcall => ?_, succeeds_iff h⟩
  obtain ⟨k, ch, before, p, after, hch, htaken, ht⟩ := call_takenOff h.good hcall
  exact ⟨k, ch, before, p, after, hch, htaken, ht, succeeds_call h hch ht⟩

theorem exists_logged (pass : Str) (lfd : Nat) (is : List Input) (P : Logged → Bool)
    (h : (match Runs.run stepLogged is (startLogged pass lfd) with
      | .ok l => P l
      | .error _ => false) = true) :
    ∃ l, Runs.run stepLogged is (startLogged pass lfd) = .ok l ∧ P l = true := by
  cases hrun : Runs.run stepLogged is (startLogged pass lfd) with
  | error e => rw [hrun] at h; cases h
  | ok l => rw [hrun] at h; exact ⟨l, rfl, h⟩

/-- Three connections; the records are allocated one behind the other. -/
def bert : Conn := ⟨5, 150, (127, 0, 0, 1)⟩
def cora : Conn := ⟨6, 200, (127, 0, 0, 1)⟩

/-- `alice` makes a channel, the other two join it, and `alice` comes to send `cmd`. -/
def passingOn (joins : List Input) (cmd : Str) : List Input := connect 0 alice ++ connect 1 bert ++ connect 2 cora ++
  say 0 2 4 (register "al" ++ str "JOIN #c\r\n") ++ joins ++ drain 0 2 270 ++
  wait [silent, readable, silent, silent] ++ [.next, .recv (.data (cmd ++ CRLF))]

def bertJoins : List Input := say 1 1 4 (register "be" ++ str "JOIN #c\r\n")
def coraJoins : List Input := say 2 0 4 (register "co" ++ str "JOIN #c\r\n")

/-- The operator `p` leaves in front of `after`; of those who stay `lowest` comes first, and `senior` has been there
longest. -/
def passesOn (p : Ptr) (after : List Ptr) (lowest senior : Ptr) (l : Logged) : Bool :=
  (l.cfg.srv.chs[str "#c"]?).any fun ch : Ch =>
    decide (takenOff l.cfg (str "#c") = p :: after) && decide (ch.adms.toList = [p]) &&
      decide (lowest ∈ ch.clis) && decide (lowest ≠ p) && (ch.clis.toList.all fun q => decide (q = p ∨ lowest ≤ q)) &&
      decide (((l.members (str "#c")).filter fun q => decide (q ∉ [] ++ [p])).head? = some senior)

theorem passesOn_spec {lowest senior : Ptr} (h : passesOn p after lowest senior l = true)
    (hlow : ∀ (k : Str) (ch : Ch) (before : List Ptr) (p : Ptr) (after : List Ptr), l.cfg.srv.chs[k]? = some ch →
      takenOff l.cfg k = before ++ p :: after → LowestIsSenior l k ch before p) : lowest = senior := by
  simp only [passesOn, Option.any_eq_true, Bool.and_eq_true, decide_eq_true_eq, List.all_eq_true,
    ExtTreeSet.mem_toList] at h
  obtain ⟨ch, hch, ⟨⟨⟨⟨htaken, hop⟩, hlowest⟩, hstay⟩, hfirst⟩, hhead⟩ := h
  have hadms : ∀ a, a ∈ ch.adms ↔ a = p := fun a => by
    rw [← ExtTreeSet.mem_toList, hop, List.mem_singleton]
  have hlast : LastOperator ch [] p := .inl ⟨(hadms p).mpr rfl, List.not_mem_nil, fun a ha _ => (hadms a).mp ha⟩
  have hsenior := hlow _ ch [] p after hch htaken hlast lowest
    ⟨hlowest, by simpa using hstay, fun q hq hD => (hfirst q hq).resolve_left (by simpa using hD)⟩
  rw [hhead] at hsenior
  exact (Option.some.inj hsenior).symm

/-- The lowest has joined first, and inherits between the two calls of a `KICK`. -/
theorem senior_inherits_kick : ∃ l,
    Runs.run stepLogged (passingOn (bertJoins ++ coraJoins) (str "KICK #c al,be")) (startLogged (str "2") 3) = .ok l ∧
    passesOn alice.addr [bert.addr] bert.addr bert.addr l = true ∧
    ((∀ call, Erases l.cfg call → Succeeds l call) ↔
      ∀ (k : Str) (ch : Ch) (before : List Ptr) (p : Ptr) (after : List Ptr), l.cfg.srv.chs[k]? = some ch →
        takenOff l.cfg k = before ++ p :: after → LowestIsSenior l k ch before p) := by
  obtain ⟨l, hrun, hP⟩ := exists_logged (str "2") 3 (passingOn (bertJoins ++ coraJoins) (str "KICK #c al,be"))
    (passesOn alice.addr [bert.addr] bert.addr bert.addr) (by decide +kernel)
  exact ⟨l, hrun, hP, (senior_inherits hrun).2⟩

/-- The addresses of the records, in the order of the connections. -/
def allocated (is : List Input) : List Ptr :=
  is.filterMap fun i =>
    match i with
    | .accept (some conn) => some conn.addr
    | _ => none

/-- A client that has joined later inherits, although the addresses grow with the connections. -/
theorem junior_inherits : ¬ ∀ (pass : Str) (lfd : Nat) (is : List Input) (l : Logged) (call : Erasure),
    (allocated is).Pairwise (· < ·) → Runs.run stepLogged is (startLogged pass lfd) = .ok l →
    Erases l.cfg call → Succeeds l call := by
  intro hall
  obtain ⟨l, hrun, hP⟩ := exists_logged (str "2") 3 (passingOn (coraJoins ++ bertJoins) (str "PART #c"))
    (passesOn alice.addr [] bert.addr cora.addr) (by decide +kernel)
  have hlaw := fun call => hall _ _ _ l call (by decide) hrun
  exact absurd (passesOn_spec hP ((succeeds_iff (recorded_run hrun)).mp hlaw)) (by decide)

end FtIrc
