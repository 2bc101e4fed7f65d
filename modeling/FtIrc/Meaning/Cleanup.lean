import FtIrc.Exec.Cleanup

/-!
# What the cleanup comes to

`cleaned` is the closed form of `eraseUnusedClis`: of the marked clients those go to whom nothing waits
to be sent, they leave every channel in the order of their descriptors, and their marks go with them.
-/

namespace FtIrc

open Std

variable {s s' : Server} {p q : Ptr} {c d : Cli} {k : Str} {ch : Ch} {cs : List Cli} {fd : Nat}
  {fds : List Nat}

/-- Clients leave the channel one after the other. -/
def Ch.dropEach (ch : Ch) (cs : List Cli) : Ch := cs.foldl (fun ch c => ch.drop c.addr) ch

@[simp] theorem dropEach_nil : ch.dropEach [] = ch := rfl

@[simp] theorem dropEach_cons : ch.dropEach (c :: cs) = (ch.drop c.addr).dropEach cs := rfl

theorem mem_clis_dropEach : ∀ (cs : List Cli) (ch : Ch),
    (p ∈ (ch.dropEach cs).clis ↔ p ∈ ch.clis ∧ ∀ c ∈ cs, c.addr ≠ p)
  | [], ch => by simp
  | c :: cs, ch => by
    rw [dropEach_cons, mem_clis_dropEach cs, clis_drop, mem_erase_iff, List.forall_mem_cons, and_comm (a := p ≠ _),
      and_assoc, ne_comm]

/-- The departure of a client that is not on the channel. -/
theorem drop_of_not_mem (hp : p ∉ ch.clis) (hq : q ∉ ch.clis) (hadm : ∀ q ∈ ch.adms, q ∈ ch.clis) :
    ch.drop p = ch.drop q := by
  have hwithout : ∀ p, p ∉ ch.clis → ch.without p = ch := by
    intro p hp
    unfold Ch.without
    rw [erase_of_not_mem hp, erase_of_not_mem fun h => hp (hadm p h)]
  rw [drop_eq, drop_eq, hwithout p hp, hwithout q hq]

namespace Server

/-- Nothing waits to be sent to the client, or there is none. -/
def gone (s : Server) (fd : Nat) : Bool := (s.clis[fd]?).all fun c => c.bufToSend = []

/-- The clients to whom nothing waits to be sent. -/
def leavers (s : Server) (fds : List Nat) : List Cli :=
  fds.filterMap fun fd => (s.clis[fd]?).filter fun c => c.bufToSend = []

/-- The server without them. -/
def without (s : Server) (fds : List Nat) : Server :=
  { s with
    polls := (fds.filter s.gone).foldl (fun ps fd => ps.eraseP (·.fd = fd)) s.polls
    clis := s.clis.filter fun fd _ => ¬ (fd ∈ fds ∧ s.gone fd = true)
    chs := s.chs.map fun _ ch => ch.dropEach (s.leavers fds) }

theorem getElem?_clis_without (fd : Nat) : (s.without fds).clis[fd]? =
    if fd ∈ fds ∧ s.gone fd = true then none else s.clis[fd]? := by
  simp only [without, ExtTreeMap.getElem?_filter', decide_not]
  cases hc : s.clis[fd]? with
  | none => simp
  | some c => by_cases h : fd ∈ fds ∧ s.gone fd = true <;> simp [h]

theorem getElem?_chs_without : (s.without fds).chs[k]? = (s.chs[k]?).map (·.dropEach (s.leavers fds)) := by
  simp [without, ExtTreeMap.getElem?_map]

theorem mem_leavers : c ∈ s.leavers fds ↔ ∃ fd ∈ fds, s.clis[fd]? = some c ∧ c.bufToSend = [] := by
  simp only [leavers, List.mem_filterMap, Option.filter_eq_some_iff, decide_eq_true_eq]

/-- States that agree on the clients at `fds` lose the same ones. -/
theorem gone_congr (h : s'.clis[fd]? = s.clis[fd]?) : s'.gone fd = s.gone fd := by
  unfold gone
  rw [h]

theorem leavers_congr (h : ∀ fd ∈ fds, s'.clis[fd]? = s.clis[fd]?) : s'.leavers fds = s.leavers fds :=
  List.filterMap_congr fun fd hfd => by rw [h fd hfd]

/-- The state is determined by its maps and lists. -/
theorem ext_maps {s t : Server} (hpass : s.pass = t.pass) (hfd : s.fdForNewClis = t.fdForNewClis)
    (hpolls : s.polls = t.polls) (hmarks : s.fdsToErase = t.fdsToErase)
    (hclis : ∀ fd : Nat, s.clis[fd]? = t.clis[fd]?) (hchs : ∀ k : Str, s.chs[k]? = t.chs[k]?) : s = t := by
  obtain ⟨pass, lfd, polls, clis, chs, marks⟩ := s
  obtain ⟨pass', lfd', polls', clis', chs', marks'⟩ := t
  simp only at hpass hfd hpolls hmarks hclis hchs
  rw [hpass, hfd, hpolls, hmarks, ExtTreeMap.ext_getElem? hclis, ExtTreeMap.ext_getElem? hchs]

/-- The loop, with the descriptors it removes. -/
theorem eraseClisLoop_eq : ∀ (fds : List Nat) (s : Server), Inv s → fds.Nodup →
    eraseClisLoop fds s = .ok (s.without fds, fds.filter s.gone)
  | [], s, _, _ => by
    have heq : s.without [] = s :=
      ext_maps rfl rfl rfl rfl (fun fd => by rw [getElem?_clis_without]; simp)
        (fun k => by rw [getElem?_chs_without]; cases s.chs[k]? <;> rfl)
    rw [heq]
    rfl
  | fd :: fds, s, hI, hnodup => by
    obtain ⟨hfd, hnodup⟩ := List.nodup_cons.mp hnodup
    -- the rest of the loop begins in `t`, where the clients at `fds` are those of `s`
    have hnext : ∀ (t : Server) (b : Bool), s.eraseUnusedCli fd = .ok (t, b) → Inv t →
        (∀ fd' ∈ fds, t.clis[fd']? = s.clis[fd']?) → s.gone fd = b →
        t.without fds = s.without (fd :: fds) →
        eraseClisLoop (fd :: fds) s = .ok (s.without (fd :: fds), (fd :: fds).filter s.gone) := by
      intro t b heq hIt hsame hb hw
      have hfilter : fds.filter t.gone = fds.filter s.gone :=
        List.filter_congr fun fd' hfd' => gone_congr (hsame fd' hfd')
      unfold eraseClisLoop
      rw [heq]
      show (eraseClisLoop fds t >>= _) = _
      rw [eraseClisLoop_eq fds t hIt hnodup, hfilter, List.filter_cons, hb, ← hw]
      rfl
    have hgone : ∀ {t : Server} {fd' : Nat}, (∀ fd' ∈ fds, t.clis[fd']? = s.clis[fd']?) →
        fd' ∈ fds → t.gone fd' = s.gone fd' := fun hsame hfd' => gone_congr (hsame _ hfd')
    rcases eraseUnusedCli_cases hI fd with ⟨c, hc, hb, heq⟩ | ⟨c, hc, hb, heq⟩ | ⟨hc, heq⟩
    · have hcfd := hI.fd_eq fd c hc
      have hc' : s.clis[c.fd]? = some c := by rw [hcfd]; exact hc
      have hsame : ∀ fd' ∈ fds, ((s.reap c).erasePoll fd).clis[fd']? = s.clis[fd']? := by
        intro fd' hfd'
        show (s.reap c).clis[fd']? = _
        rw [getElem?_clis_reap, if_neg]
        rintro rfl
        exact hfd (hcfd ▸ hfd')
      have hb' : s.gone fd = true := by simp [gone, hc, hb]
      have hleave : s.leavers (fd :: fds) = c :: s.leavers fds :=
        List.filterMap_cons_some (by rw [hc]; simp [hb])
      refine hnext _ true heq (inv_of_other (inv_reap hI hc') rfl rfl) hsame hb' ?_
      refine ext_maps rfl rfl ?_ rfl (fun fd' => ?_) fun k => ?_
      · have hfilter : fds.filter ((s.reap c).erasePoll fd).gone = fds.filter s.gone :=
          List.filter_congr fun fd' hfd' => hgone hsame hfd'
        unfold without
        simp only [hfilter, List.filter_cons, hb', if_true, List.foldl_cons]
        rfl
      · rw [getElem?_clis_without, getElem?_clis_without]
        by_cases hf : fd' = fd
        · subst hf
          rw [if_neg (fun h => hfd h.1), if_pos ⟨by simp, hb'⟩]
          show (s.reap c).clis[fd']? = none
          rw [getElem?_clis_reap, if_pos hcfd.symm]
        · have hclis : ((s.reap c).erasePoll fd).clis[fd']? = s.clis[fd']? := by
            show (s.reap c).clis[fd']? = _
            rw [getElem?_clis_reap, if_neg (hcfd ▸ hf)]
          rw [hclis, gone_congr hclis]
          simp [hf]
      · rw [getElem?_chs_without, getElem?_chs_without, leavers_congr hsame, hleave]
        show ((s.reap c).chs[k]?).map _ = _
        rw [getElem?_chs_reap, Option.map_map]
        cases hch : s.chs[k]? with
        | none => rfl
        | some ch =>
          rw [Option.map_some, Option.map_some, Function.comp, dropEach_cons]
          rcases getCli_reap hI (mem_clients.mpr ⟨fd, hc⟩) with h | h
          · rw [h]
          · obtain ⟨h1, h2⟩ := h k ch hch
            rw [drop_of_not_mem h1 h2 (hI.adm k ch hch)]
    · have hb' : s.gone fd = false := by simp [gone, hc, hb]
      have hleave : s.leavers (fd :: fds) = s.leavers fds :=
        List.filterMap_cons_none (by rw [hc]; simp [hb])
      refine hnext _ false heq hI (fun _ _ => rfl) hb' ?_
      refine ext_maps rfl rfl ?_ rfl (fun fd' => ?_) fun k => ?_
      · unfold without
        simp [hb']
      · rw [getElem?_clis_without, getElem?_clis_without]
        by_cases hf : fd' = fd
        · subst hf
          simp [hb']
        · simp [hf]
      · rw [getElem?_chs_without, getElem?_chs_without, hleave]
    · have hb' : s.gone fd = true := by simp [gone, hc]
      have hleave : s.leavers (fd :: fds) = s.leavers fds :=
        List.filterMap_cons_none (by rw [hc]; rfl)
      refine hnext _ true heq (inv_of_other hI rfl rfl) (fun _ _ => rfl) hb' ?_
      refine ext_maps rfl rfl ?_ rfl (fun fd' => ?_) fun k => ?_
      · have hfilter : fds.filter (s.erasePoll fd).gone = fds.filter s.gone :=
          List.filter_congr fun fd' _ => gone_congr rfl
        unfold without
        simp only [hfilter, List.filter_cons, hb', if_true, List.foldl_cons]
        rfl
      · rw [getElem?_clis_without, getElem?_clis_without]
        show (if _ then none else s.clis[fd']?) = _
        have hg : (s.erasePoll fd).gone fd' = s.gone fd' := gone_congr rfl
        rw [hg]
        by_cases hf : fd' = fd
        · subst hf
          rw [hc]
          simp
        · simp [hf]
      · rw [getElem?_chs_without, getElem?_chs_without, hleave]
        rfl

/-- The server after the cleanup of the clients. -/
def cleaned (s : Server) : Server :=
  { s.without s.fdsToErase.toList with
    fdsToErase := (s.fdsToErase.toList.filter s.gone).foldl (fun fds fd => fds.erase fd) s.fdsToErase }

/-- **The cleanup of the clients.** -/
theorem eraseUnusedClis_eq (hI : Inv s) : s.eraseUnusedClis = .ok s.cleaned := by
  unfold eraseUnusedClis
  rw [eraseClisLoop_eq _ s hI nodup_toList]
  rfl

theorem mem_foldl_erase : ∀ (l : List Nat) (fds : ExtTreeSet Nat),
    (fd ∈ l.foldl (fun fds fd => fds.erase fd) fds ↔ fd ∈ fds ∧ fd ∉ l)
  | [], fds => by simp
  | a :: l, fds => by
    rw [List.foldl_cons, mem_foldl_erase l, mem_erase_iff, List.mem_cons, not_or, and_assoc, and_left_comm]

/-- The marks that stay are those of the clients that wait for something to be sent. -/
theorem mem_fdsToErase_cleaned : fd ∈ s.cleaned.fdsToErase ↔
    fd ∈ s.fdsToErase ∧ ∃ c, s.clis[fd]? = some c ∧ c.bufToSend ≠ [] := by
  show fd ∈ (s.fdsToErase.toList.filter s.gone).foldl (fun fds fd => fds.erase fd) s.fdsToErase ↔ _
  rw [mem_foldl_erase]
  simp only [List.mem_filter, ExtTreeSet.mem_toList, not_and, Bool.not_eq_true]
  refine and_congr_right fun hm => ?_
  rw [imp_iff_right hm]
  unfold gone
  cases s.clis[fd]? with
  | none => simp
  | some c => simp

theorem getElem?_clis_cleaned (fd : Nat) : s.cleaned.clis[fd]? =
    if fd ∈ s.fdsToErase ∧ s.gone fd = true then none else s.clis[fd]? := by
  show (s.without s.fdsToErase.toList).clis[fd]? = _
  rw [getElem?_clis_without]
  simp only [ExtTreeSet.mem_toList]

theorem mem_clients_cleaned (h : c ∈ s.cleaned.clients) : c ∈ s.clients := by
  obtain ⟨fd, hfd⟩ := mem_clients.mp h
  rw [getElem?_clis_cleaned] at hfd
  split at hfd
  · cases hfd
  · exact mem_clients.mpr ⟨fd, hfd⟩

theorem getElem?_chs_cleaned : s.cleaned.chs[k]? =
    (s.chs[k]?).map (·.dropEach (s.leavers s.fdsToErase.toList)) :=
  getElem?_chs_without

end Server

end FtIrc
