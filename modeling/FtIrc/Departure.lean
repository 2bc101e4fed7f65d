import FtIrc.Descriptors

/-!
# Clients leave

`eraseCliFromCh` makes an operator after every departure, perhaps of somebody who is the next to leave.
`Ch.leave` is the channel after a group has left it, in closed form, and leaving one by one comes to the
same in whatever order (`leave_drop`, `dropEach_eq`).

`Server.purged` is the same for `eraseUnusedClis`: the server without the marked clients to whom nothing
waits to be sent (`purged_reachable`).
-/

namespace FtIrc

open Std Server

variable {s : Server} {ch : Ch} {p q : Ptr} {k : Str} {c : Cli} {cs : List Cli} {fd lfd : Nat}
  {fds : List Nat} {ps : List Pollfd} {D E : Ptr → Bool} {pass : Str} {cfg : Config}

/-! ## A group leaves a channel -/

/-- The operators of a channel that members `clis` and operators `adms` are left of: a channel with
members but no operator gets its first member. -/
def heirs (clis adms : ExtTreeSet Ptr) : ExtTreeSet Ptr :=
  if adms.size = 0 then
    match clis.min? with
    | some y => (∅ : ExtTreeSet Ptr).insert y
    | none => ∅
  else adms

/-- The channel without the clients in `D`. -/
def Ch.leave (ch : Ch) (D : Ptr → Bool) : Ch :=
  { ch with
    clis := ch.clis.filter fun p => !D p
    adms := heirs (ch.clis.filter fun p => !D p) (ch.adms.filter fun p => !D p) }

/-- `p` is the first of the members that are not in `D`. -/
def FirstLeft (ch : Ch) (D : Ptr → Bool) (p : Ptr) : Prop :=
  p ∈ ch.clis ∧ D p = false ∧ ∀ q ∈ ch.clis, D q = false → p ≤ q

theorem FirstLeft.unique (hp : FirstLeft ch D p) (hq : FirstLeft ch D q) : p = q :=
  Nat.le_antisymm (hp.2.2 q hq.1 hq.2.1) (hq.2.2 p hp.1 hp.2.1)

theorem exists_first (h : ∃ q ∈ ch.clis, D q = false) : ∃ y, FirstLeft ch D y := by
  obtain ⟨q, hq, hD⟩ := h
  have hq : q ∈ ch.clis.filter fun p => !D p := by simp [hq, hD]
  cases hmin : (ch.clis.filter fun p => !D p).min? with
  | none =>
    rw [ExtTreeSet.min?_eq_none_iff] at hmin
    rw [hmin] at hq
    exact absurd hq ExtTreeSet.not_mem_empty
  | some y =>
    obtain ⟨hy, hle⟩ := ExtTreeSet.min?_eq_some_iff_mem_and_forall.mp hmin
    have hmem : ∀ q, q ∈ (ch.clis.filter fun p => !D p) ↔ q ∈ ch.clis ∧ D q = false := fun q => by simp
    obtain ⟨hy, hDy⟩ := (hmem y).mp hy
    exact ⟨y, hy, hDy, fun q hq hDq => Std.isLE_compare.mp (hle q ((hmem q).mpr ⟨hq, hDq⟩))⟩

theorem mem_heirs {clis adms : ExtTreeSet Ptr} : p ∈ heirs clis adms ↔
    p ∈ adms ∨ ((∀ q, q ∉ adms) ∧ p ∈ clis ∧ ∀ q ∈ clis, p ≤ q) := by
  unfold heirs
  split
  · rename_i h0
    have hno := size_eq_zero_iff.mp h0
    rw [or_iff_right (hno p), and_iff_right hno]
    cases hmin : clis.min? with
    | none =>
      rw [ExtTreeSet.min?_eq_none_iff] at hmin
      simp [hmin]
    | some y =>
      obtain ⟨hy, hle⟩ := ExtTreeSet.min?_eq_some_iff_mem_and_forall.mp hmin
      have hle : ∀ q ∈ clis, y ≤ q := fun q hq => Std.isLE_compare.mp (hle q hq)
      simp only [ExtTreeSet.mem_insert, Std.compare_eq_iff_eq, ExtTreeSet.not_mem_empty, or_false]
      constructor
      · rintro rfl
        exact ⟨hy, hle⟩
      · rintro ⟨hp, hpq⟩
        exact Nat.le_antisymm (hle p hp) (hpq y hy)
  · rename_i h0
    refine (or_iff_left fun h => h0 (size_eq_zero_iff.mpr h.1)).symm

@[simp] theorem mem_clis_leave : p ∈ (ch.leave D).clis ↔ p ∈ ch.clis ∧ D p = false := by
  simp [Ch.leave]

theorem mem_adms_leave : p ∈ (ch.leave D).adms ↔
    (p ∈ ch.adms ∧ D p = false) ∨ ((∀ q ∈ ch.adms, D q = true) ∧ FirstLeft ch D p) := by
  show p ∈ heirs _ _ ↔ _
  rw [mem_heirs]
  simp [FirstLeft, and_assoc]

theorem mem_adms_drop : q ∈ (ch.drop p).adms ↔
    (q ∈ ch.adms ∧ q ≠ p) ∨ ((∀ r ∈ ch.adms, r = p) ∧ q ∈ ch.clis ∧ q ≠ p ∧ ∀ r ∈ ch.clis, r ≠ p → q ≤ r) := by
  rcases adms_drop ch p with ⟨hadm, hwhy⟩ | ⟨hall, y, hy, hyp, hmin, hadm⟩
  · rw [hadm, mem_erase_iff, and_comm]
    refine (or_iff_left ?_).symm
    rintro ⟨hall, hq, hqp, -⟩
    rcases hwhy with ⟨r, hr, hrp⟩ | hclis
    · exact hrp (hall r hr)
    · exact hqp (hclis q hq)
  · rw [hadm, or_iff_right fun h => h.2 (hall q h.1), and_iff_right hall]
    constructor
    · rintro rfl
      exact ⟨hy, hyp, hmin⟩
    · rintro ⟨hq, hqp, hle⟩
      exact Nat.le_antisymm (hle y hy hyp) (hmin q hq hqp)

/-- Channels that differ at most in their members and operators. -/
theorem Ch.ext_sets {a b : Ch} (htopic : a.topic = b.topic)
    (hmodes : a.pass = b.pass ∧ a.optI = b.optI ∧ a.optT = b.optT ∧ a.limit = b.limit)
    (hclis : ∀ p, p ∈ a.clis ↔ p ∈ b.clis) (hadms : ∀ p, p ∈ a.adms ↔ p ∈ b.adms) : a = b := by
  obtain ⟨topic, pass, optI, optT, limit, clis, adms⟩ := a
  obtain ⟨topic', pass', optI', optT', limit', clis', adms'⟩ := b
  obtain ⟨hpass, hi, ht, hl⟩ := hmodes
  simp only at htopic hpass hi ht hl hclis hadms
  rw [htopic, hpass, hi, ht, hl, ExtTreeSet.ext_mem hclis, ExtTreeSet.ext_mem hadms]

/-- One client leaves. -/
theorem drop_eq_leave (ch : Ch) (p : Ptr) : ch.drop p = ch.leave fun q => q = p := by
  refine Ch.ext_sets topic_drop modes_drop (fun q => ?_) fun q => ?_
  · rw [clis_drop, mem_erase_iff, mem_clis_leave, and_comm, decide_eq_false_iff_not]
  · rw [mem_adms_drop, mem_adms_leave]
    simp only [FirstLeft, decide_eq_true_eq, decide_eq_false_iff_not]

/-- Another client leaves: the intermediate promotion makes no difference. -/
theorem leave_drop (ch : Ch) (D : Ptr → Bool) (p : Ptr) :
    (ch.leave D).drop p = ch.leave fun q => D q || q = p := by
  refine Ch.ext_sets topic_drop modes_drop (fun q => ?_) fun q => ?_
  · rw [clis_drop, mem_erase_iff, mem_clis_leave, mem_clis_leave, and_comm, and_assoc]
    simp
  · rw [mem_adms_drop]
    simp only [mem_adms_leave, mem_clis_leave, FirstLeft, Bool.or_eq_false_iff, Bool.or_eq_true,
      decide_eq_true_eq, decide_eq_false_iff_not]
    constructor
    · rintro (⟨⟨hq, hD⟩ | ⟨hall, hq, hD, hle⟩, hqp⟩ | ⟨hall, ⟨hq, hD⟩, hqp, hle⟩)
      · exact .inl ⟨hq, hD, hqp⟩
      · exact .inr ⟨fun r hr => .inl (hall r hr), hq, ⟨hD, hqp⟩, fun r hr hDr => hle r hr hDr.1⟩
      · refine .inr ⟨fun r hr => ?_, hq, ⟨hD, hqp⟩, fun r hr hDr => hle r ⟨hr, hDr.1⟩ hDr.2⟩
        by_cases hDr : D r = true
        · exact .inl hDr
        · exact .inr (hall r (.inl ⟨hr, by simpa using hDr⟩))
    · rintro (⟨hq, hD, hqp⟩ | ⟨hall, hq, ⟨hD, hqp⟩, hle⟩)
      · exact .inl ⟨.inl ⟨hq, hD⟩, hqp⟩
      by_cases hp : ∀ r, r ∈ ch.adms → D r = true
      · -- somebody had been promoted: `p` itself, or `q` already
        by_cases hfirst : p ∈ ch.clis ∧ D p = false ∧ ∀ r ∈ ch.clis, D r = false → p ≤ r
        · refine .inr ⟨?_, ⟨hq, hD⟩, hqp, fun r hr hrp => hle r hr.1 ⟨hr.2, hrp⟩⟩
          rintro r (⟨hr, hDr⟩ | ⟨-, hr, hDr, hler⟩)
          · rw [hp r hr] at hDr
            cases hDr
          · exact Nat.le_antisymm (hler p hfirst.1 hfirst.2.1) (hfirst.2.2 r hr hDr)
        · refine .inl ⟨.inr ⟨hp, hq, hD, fun r hr hDr => ?_⟩, hqp⟩
          by_cases hrp : r = p
          · subst hrp
            push Not at hfirst
            obtain ⟨t, ht, hDt, hlt⟩ := hfirst hr hDr
            exact (hle t ht ⟨hDt, fun h => absurd hlt (by simp [h])⟩).trans hlt.le
          · exact hle r hr ⟨hDr, hrp⟩
      · -- an operator had stayed, and it was `p`
        push Not at hp
        obtain ⟨a, ha, hDa⟩ := hp
        refine .inr ⟨?_, ⟨hq, hD⟩, hqp, fun r hr hrp => hle r hr.1 ⟨hr.2, hrp⟩⟩
        rintro r (⟨hr, hDr⟩ | ⟨hno, -⟩)
        · exact (hall r hr).resolve_left (by simp [hDr])
        · exact absurd (hno a ha) hDa

/-- Who is not a member does not leave. -/
theorem leave_congr (hadm : ∀ q ∈ ch.adms, q ∈ ch.clis) (h : ∀ q ∈ ch.clis, D q = E q) :
    ch.leave D = ch.leave E := by
  refine Ch.ext_sets rfl ⟨rfl, rfl, rfl, rfl⟩ (fun p => ?_) fun p => ?_
  · rw [mem_clis_leave, mem_clis_leave]
    exact and_congr_right fun hp => by rw [h p hp]
  · have hfirst : FirstLeft ch D p ↔ FirstLeft ch E p := by
      unfold FirstLeft
      exact and_congr_right fun hp =>
        and_congr (by rw [h p hp]) (forall₂_congr fun q hq => by rw [h q hq])
    rw [mem_adms_leave, mem_adms_leave, hfirst]
    refine or_congr (and_congr_right fun hp => by rw [h p (hadm p hp)]) ?_
    exact and_congr_left' (forall₂_congr fun q hq => by rw [h q (hadm q hq)])

/-- Clients leave one after the other. -/
theorem foldl_drop_leave : ∀ (ps : List Ptr) (D : Ptr → Bool),
    ps.foldl Ch.drop (ch.leave D) = ch.leave fun q => D q || decide (q ∈ ps)
  | [], D => by simp
  | p :: ps, D => by
    rw [List.foldl_cons, leave_drop, foldl_drop_leave ps]
    congr 1
    funext q
    simp [Bool.or_assoc]

theorem foldl_drop {ps : List Ptr} (hne : ps ≠ []) : ps.foldl Ch.drop ch = ch.leave fun q => decide (q ∈ ps) := by
  cases ps with
  | nil => exact absurd rfl hne
  | cons p ps =>
    rw [List.foldl_cons, drop_eq_leave, foldl_drop_leave]
    congr 1
    funext q
    simp

theorem dropEach_eq (hne : cs ≠ []) : ch.dropEach cs = ch.leave fun q => cs.any (·.addr = q) := by
  have hmap : ch.dropEach cs = (cs.map (·.addr)).foldl Ch.drop ch := by
    rw [List.foldl_map]
    rfl
  rw [hmap, foldl_drop (by simpa using hne)]
  congr 1
  funext q
  rw [Bool.eq_iff_iff]
  simp

/-! ## The entries of the clients that leave -/

theorem eraseP_fd : ∀ ps : List Pollfd, (ps.map (·.fd)).Nodup →
    ps.eraseP (·.fd = fd) = ps.filter fun p => decide (p.fd ≠ fd)
  | [], _ => rfl
  | p :: ps, hnodup => by
    rw [List.map_cons, List.nodup_cons] at hnodup
    by_cases hp : p.fd = fd
    · have hrest : ps.filter (fun q => decide (q.fd ≠ fd)) = ps := by
        refine List.filter_eq_self.mpr fun q hq => decide_eq_true fun h => hnodup.1 ?_
        exact List.mem_map.mpr ⟨q, hq, h.trans hp.symm⟩
      rw [List.eraseP_cons_of_pos (by simpa using hp), List.filter_cons_of_neg (by simpa using hp), hrest]
    · rw [List.eraseP_cons_of_neg (by simpa using hp), List.filter_cons_of_pos (by simpa using hp),
        eraseP_fd ps hnodup.2]

/-- Removing descriptors from `polls`. -/
theorem foldl_eraseP_fd : ∀ (fds : List Nat) (ps : List Pollfd), (ps.map (·.fd)).Nodup →
    fds.foldl (fun ps fd => ps.eraseP (·.fd = fd)) ps = ps.filter fun p => decide (p.fd ∉ fds)
  | [], ps, _ => (List.filter_eq_self.mpr fun p _ => decide_eq_true List.not_mem_nil).symm
  | fd :: fds, ps, hnodup => by
    have hsub : (ps.filter fun p => decide (p.fd ≠ fd)).Sublist ps := List.filter_sublist
    rw [List.foldl_cons, eraseP_fd ps hnodup, foldl_eraseP_fd fds _ (hnodup.sublist (hsub.map _)),
      List.filter_filter]
    refine List.filter_congr fun p _ => ?_
    simp [Bool.and_comm]

/-! ## The cleanup -/

namespace Server

/-- A marked client to whom nothing waits to be sent. -/
def leaving (s : Server) (fd : Nat) : Bool :=
  decide (fd ∈ s.fdsToErase) && (s.clis[fd]?).any fun c => c.bufToSend = []

/-- The object of such a client. -/
def leavingCli (s : Server) (p : Ptr) : Bool := s.clients.any fun c => c.addr = p && s.leaving c.fd

/-- The server without these clients. -/
def purged (s : Server) : Server :=
  { s with
    clis := s.clis.filter fun fd _ => !s.leaving fd
    polls := s.polls.filter fun p => !s.leaving p.fd
    fdsToErase := s.fdsToErase.filter fun fd => !s.leaving fd
    chs := s.chs.map fun _ ch => ch.leave s.leavingCli }

/-- `eraseUnusedClis`, with the marks taken in the order `fds`. -/
def eraseUnusedClisIn (s : Server) (fds : List Nat) : Except Fault Server := do
  let (s, removed) ← eraseClisLoop fds s
  .ok { s with fdsToErase := removed.foldl (fun fds fd => fds.erase fd) s.fdsToErase }

theorem eraseUnusedClis_in : s.eraseUnusedClis = s.eraseUnusedClisIn s.fdsToErase.toList := rfl

theorem leaving_iff : s.leaving fd = true ↔ fd ∈ s.fdsToErase ∧ ∃ c, s.clis[fd]? = some c ∧ c.bufToSend = [] := by
  simp [leaving, Option.any_eq_true]

theorem leavingCli_iff (hI : Inv s) : s.leavingCli p = true ↔
    ∃ fd ∈ s.fdsToErase, ∃ c, s.clis[fd]? = some c ∧ c.bufToSend = [] ∧ c.addr = p := by
  simp only [leavingCli, List.any_eq_true, Bool.and_eq_true, decide_eq_true_eq, leaving_iff]
  constructor
  · rintro ⟨c, hc, rfl, hm, d, hd, hb⟩
    have hcd : d = c := by
      rw [clis_of_cliAt hI (cliAt_of_mem hI hc)] at hd
      exact (Option.some.inj hd).symm
    subst hcd
    exact ⟨d.fd, hm, d, hd, hb, rfl⟩
  · rintro ⟨fd, hm, c, hc, hb, rfl⟩
    have hfd := hI.fd_eq fd c hc
    exact ⟨c, mem_clients.mpr ⟨fd, hc⟩, rfl, by rw [hfd]; exact hm, c, by rw [hfd]; exact hc, hb⟩

theorem leavingCli_eq (hI : Inv s) (hmem : ∀ fd, fd ∈ fds ↔ fd ∈ s.fdsToErase) :
    s.leavingCli p = (s.leavers fds).any (·.addr = p) := by
  rw [Bool.eq_iff_iff, leavingCli_iff hI]
  simp only [List.any_eq_true, mem_leavers, decide_eq_true_eq]
  constructor
  · rintro ⟨fd, hm, c, hc, hb, hp⟩
    exact ⟨c, ⟨fd, (hmem fd).mpr hm, hc, hb⟩, hp⟩
  · rintro ⟨c, ⟨fd, hfd, hc, hb⟩, hp⟩
    exact ⟨fd, (hmem fd).mp hfd, c, hc, hb, hp⟩

/-- Of the marks, those go with the loop whose clients leave. -/
theorem gone_of_marked (hw : Watched s) (hm : fd ∈ s.fdsToErase) : s.gone fd = s.leaving fd := by
  obtain ⟨c, hc⟩ := Option.isSome_iff_exists.mp (ExtTreeMap.mem_iff_isSome_getElem?.mp (hw.marked fd hm))
  simp [gone, leaving, hc, hm]

/-- **The cleanup in closed form**, in whatever order the marks are taken. -/
theorem eraseUnusedClisIn_eq (hI : Inv s) (hw : Watched s) (hsome : ∃ fd, s.leaving fd = true)
    (hfds : fds.Perm s.fdsToErase.toList) : s.eraseUnusedClisIn fds = .ok s.purged := by
  have hmem : ∀ fd, fd ∈ fds ↔ fd ∈ s.fdsToErase := fun fd => hfds.mem_iff.trans ExtTreeSet.mem_toList
  have hnodup : fds.Nodup := hfds.nodup_iff.mpr nodup_toList
  have hgone : ∀ fd, fd ∈ fds ∧ s.gone fd = true ↔ s.leaving fd = true := by
    intro fd
    constructor
    · rintro ⟨hfd, hg⟩
      rw [← gone_of_marked hw ((hmem fd).mp hfd)]
      exact hg
    · intro hl
      have hm := (leaving_iff.mp hl).1
      exact ⟨(hmem fd).mpr hm, by rw [gone_of_marked hw hm]; exact hl⟩
  have hfilter : ∀ fd, fd ∈ fds.filter s.gone ↔ s.leaving fd = true := fun fd => by
    rw [List.mem_filter]
    exact hgone fd
  unfold eraseUnusedClisIn
  rw [eraseClisLoop_eq fds s hI hnodup]
  refine congrArg Except.ok (ext_maps rfl rfl ?_ ?_ (fun fd => ?_) fun k => ?_)
  · show (fds.filter s.gone).foldl _ s.polls = s.polls.filter _
    rw [foldl_eraseP_fd _ _ hw.nodup]
    refine List.filter_congr fun p _ => ?_
    simp only [hfilter]
    simp
  · refine ExtTreeSet.ext_mem fun fd => ?_
    show fd ∈ (fds.filter s.gone).foldl _ s.fdsToErase ↔ fd ∈ s.fdsToErase.filter _
    rw [mem_foldl_erase, hfilter]
    simp
  · show (s.without fds).clis[fd]? = (s.clis.filter _)[fd]?
    rw [getElem?_clis_without, ExtTreeMap.getElem?_filter']
    by_cases hl : s.leaving fd = true
    · rw [if_pos ((hgone fd).mpr hl)]
      cases s.clis[fd]? <;> simp [hl]
    · rw [if_neg fun h => hl ((hgone fd).mp h)]
      cases s.clis[fd]? <;> simp [hl, Option.filter]
  · show (s.without fds).chs[k]? = (s.chs.map _)[k]?
    rw [getElem?_chs_without, ExtTreeMap.getElem?_map]
    cases hch : s.chs[k]? with
    | none => rfl
    | some ch =>
      obtain ⟨fd, hl⟩ := hsome
      obtain ⟨hm, c, hc, hb⟩ := leaving_iff.mp hl
      have hne : s.leavers fds ≠ [] :=
        List.ne_nil_of_mem (mem_leavers.mpr ⟨fd, (hmem fd).mpr hm, hc, hb⟩)
      rw [Option.map_some, Option.map_some, dropEach_eq hne]
      exact congrArg some (leave_congr (hI.adm k ch hch) fun p _ => (leavingCli_eq hI hmem).symm)

end Server

/-- The operators after a group has left: those that stay, or else the first of the members that stay. -/
theorem adms_leave_cases (hadm : ∀ q ∈ ch.adms, q ∈ ch.clis) :
    ((∃ q ∈ ch.adms, D q = false) → ∀ p, p ∈ (ch.leave D).adms ↔ p ∈ ch.adms ∧ D p = false) ∧
    ((∀ q ∈ ch.adms, D q = true) → (∃ q ∈ ch.clis, D q = false) →
      ∃ y, FirstLeft ch D y ∧ ∀ p, p ∈ (ch.leave D).adms ↔ p = y) ∧
    ((∀ q ∈ ch.clis, D q = true) → ∀ p, p ∉ (ch.leave D).adms) := by
  refine ⟨fun ⟨q, hq, hD⟩ p => ?_, fun hall hsome => ?_, fun hnone p hp => ?_⟩
  · rw [mem_adms_leave]
    exact or_iff_left fun h => absurd (h.1 q hq) (by simp [hD])
  · obtain ⟨y, hy⟩ := exists_first hsome
    refine ⟨y, hy, fun p => ?_⟩
    rw [mem_adms_leave, and_iff_right hall, or_iff_right fun h => absurd (hall p h.1) (by simp [h.2])]
    refine ⟨fun hp => hp.unique hy, ?_⟩
    rintro rfl
    exact hy
  · rcases mem_adms_leave.mp hp with ⟨hp, hD⟩ | ⟨-, hp, hD, -⟩
    · rw [hnone p (hadm p hp)] at hD
      cases hD
    · rw [hnone p hp] at hD
      cases hD

/-- **The cleanup does not depend on the order** in which the marks are taken, and leaves the server
without the clients that go: their entries, their marks and their memberships are gone, a channel that
they leave without an operator has its first member as operator, and nothing else changes. -/
theorem purged_reachable (hr : Reachable pass lfd cfg) (hsome : ∃ fd, cfg.srv.leaving fd = true) :
    cfg.srv.eraseUnusedClis = .ok cfg.srv.purged ∧
    (∀ fds : List Nat, fds.Perm cfg.srv.fdsToErase.toList →
      cfg.srv.eraseUnusedClisIn fds = .ok cfg.srv.purged) ∧
    ∀ (k : Str) (ch : Ch), cfg.srv.chs[k]? = some ch → ∃ ch', cfg.srv.purged.chs[k]? = some ch' ∧
      ch' = { ch with clis := ch'.clis, adms := ch'.adms } ∧
      (∀ p, p ∈ ch'.clis ↔ p ∈ ch.clis ∧ cfg.srv.leavingCli p = false) ∧
      ((∃ q ∈ ch.adms, cfg.srv.leavingCli q = false) →
        ∀ p, p ∈ ch'.adms ↔ p ∈ ch.adms ∧ cfg.srv.leavingCli p = false) ∧
      ((∀ q ∈ ch.adms, cfg.srv.leavingCli q = true) → (∃ q ∈ ch.clis, cfg.srv.leavingCli q = false) →
        ∃ y, FirstLeft ch cfg.srv.leavingCli y ∧ ∀ p, p ∈ ch'.adms ↔ p = y) ∧
      ((∀ q ∈ ch.clis, cfg.srv.leavingCli q = true) → ∀ p, p ∉ ch'.adms) := by
  have hI := hr.good.inv
  have hw := hr.bookkept.1.watched
  refine ⟨eraseUnusedClisIn_eq hI hw hsome (List.Perm.refl _),
    fun fds hfds => eraseUnusedClisIn_eq hI hw hsome hfds, fun k ch hch => ?_⟩
  refine ⟨ch.leave cfg.srv.leavingCli, ?_, rfl, fun p => mem_clis_leave, adms_leave_cases (hI.adm k ch hch)⟩
  show (cfg.srv.chs.map _)[k]? = _
  rw [ExtTreeMap.getElem?_map, hch]
  rfl

def dora : Conn := ⟨6, 150, (127, 0, 0, 1)⟩

/-- The operator of a channel and another member have closed their connections; `bob`, who comes first of the members,
would be promoted if `alice` left alone. -/
def bothClosed : List Input := connect 0 alice ++ connect 1 bob ++ connect 2 dora ++
  say 0 2 4 (register "al" ++ str "JOIN #c\r\n") ++ say 1 1 4 (register "bo" ++ str "JOIN #c\r\n") ++
  say 2 0 4 (register "do" ++ str "JOIN #c\r\n") ++ drain 0 2 270 ++ drain 1 1 204 ++
  wait [silent, readable, readable, silent] ++ [.next, .recv .closed, .recv .closed, .next, .next]

/-- In both orders the third member is the operator then. -/
theorem purged_reachable_closed : ∃ cfg ch', runServer (str "2") 3 bothClosed = .ok cfg ∧
    cfg.srv.eraseUnusedClis = .ok cfg.srv.purged ∧ cfg.srv.eraseUnusedClisIn [4, 5] = .ok cfg.srv.purged ∧
    cfg.srv.eraseUnusedClisIn [5, 4] = .ok cfg.srv.purged ∧ cfg.srv.purged.chs[str "#c"]? = some ch' ∧
    (∀ p, p ∈ ch'.clis ↔ p = dora.addr) ∧ ∀ p, p ∈ ch'.adms ↔ p = dora.addr := by
  obtain ⟨cfg, hrun, hP⟩ := exists_run (str "2") 3 bothClosed
    (fun cfg => decide (cfg.srv.fdsToErase.toList = [4, 5]) && cfg.srv.leaving 4 &&
      cfg.srv.leavingCli alice.addr && cfg.srv.leavingCli bob.addr && !cfg.srv.leavingCli dora.addr &&
      (cfg.srv.chs[str "#c"]?).any fun ch : Ch =>
        decide (ch.adms.toList = [alice.addr]) && decide (ch.clis.toList = [bob.addr, alice.addr, dora.addr]))
    (by decide +kernel)
  simp only [Bool.and_eq_true, Bool.not_eq_true', decide_eq_true_eq, Option.any_eq_true] at hP
  obtain ⟨⟨⟨⟨⟨hfds, hleaving⟩, halice⟩, hbob⟩, hdora⟩, ch, hch, hadms, hclis⟩ := hP
  obtain ⟨hall, hany, hchs⟩ := purged_reachable ⟨_, hrun⟩ ⟨_, hleaving⟩
  obtain ⟨ch', hch', -, hstay, -, hheir, -⟩ := hchs _ ch hch
  have hmember : ∀ p, p ∈ ch.clis ↔ p = bob.addr ∨ p = alice.addr ∨ p = dora.addr := fun p => by
    rw [← ExtTreeSet.mem_toList, hclis]
    simp
  have hleft : ∀ p, p ∈ ch.clis ∧ cfg.srv.leavingCli p = false ↔ p = dora.addr := fun p => by
    rw [hmember]
    constructor
    · rintro ⟨rfl | rfl | rfl, hno⟩
      · rw [hbob] at hno
        cases hno
      · rw [halice] at hno
        cases hno
      · rfl
    · rintro rfl
      exact ⟨.inr (.inr rfl), hdora⟩
  have hop : ∀ q ∈ ch.adms, cfg.srv.leavingCli q = true := fun q hq => by
    rw [← ExtTreeSet.mem_toList, hadms, List.mem_singleton] at hq
    rw [hq]
    exact halice
  obtain ⟨y, hy, honly⟩ := hheir hop ⟨dora.addr, (hleft _).mpr rfl⟩
  have hyd := (hleft y).mp ⟨hy.1, hy.2.1⟩
  refine ⟨cfg, ch', hrun, hall, hany _ (by rw [hfds]), hany _ (by rw [hfds]; decide), hch',
    fun p => (hstay p).trans (hleft p), fun p => ?_⟩
  rw [honly p, hyd]

end FtIrc
