import FtIrc.Loop
import FtIrc.Exec.Leave

/-!
# Executing the cleanup

`eraseUnusedClis` and `eraseUnusedChs` cannot fail under the invariant.

* `reap s c` — what the removal of the client `c` comes to: it leaves every channel, and its record
  goes.  The client is looked up by nick, so a client without a nick is taken for any of those
  without; none of them is on a channel.
* `eraseClisLoop_ok` — what every removal preserves, the loop preserves.
* `eraseUnusedChs_ok` — exactly the channels without members go, and exactly their objects are freed.
-/

namespace FtIrc

open Std

namespace Server

variable {s s' : Server} {p q x : Ptr} {c d : Cli} {k nick : Str} {ch : Ch} {ks : List Str} {fd : Nat}

/-! ## Leaving every channel -/

/-- `p` leaves the channels `ks`. -/
def dropIn (s : Server) (ks : List Str) (p : Ptr) : Server :=
  { s with chs := s.chs.map fun k ch => if k ∈ ks then ch.drop p else ch }

/-- `p` leaves every channel. -/
def dropAll (s : Server) (p : Ptr) : Server := { s with chs := s.chs.map fun _ ch => ch.drop p }

theorem dropIn_keys : s.dropIn s.chs.keys p = s.dropAll p := by
  have hmap : (s.dropIn s.chs.keys p).chs = (s.dropAll p).chs := by
    refine ExtTreeMap.ext_getElem? fun k => ?_
    simp only [dropIn, dropAll, ExtTreeMap.getElem?_map]
    cases hk : s.chs[k]? with
    | none => rfl
    | some ch => rw [Option.map_some, if_pos (ExtTreeMap.mem_keys.mpr (mem_chs.mpr ⟨ch, hk⟩))]; rfl
  show { s with chs := (s.dropIn s.chs.keys p).chs } = { s with chs := (s.dropAll p).chs }
  rw [hmap]

theorem getElem?_chs_dropAll : (s.dropAll p).chs[k]? = (s.chs[k]?).map fun ch => ch.drop p := by
  simp [dropAll, ExtTreeMap.getElem?_map]

@[simp] theorem mem_chs_dropAll : k ∈ (s.dropAll p).chs ↔ k ∈ s.chs := by simp [dropAll]

/-- Each round of the loop over the channels finds its channel. -/
theorem eraseFromChs_ok : ∀ (ks : List Str) (s : Server),
    s.getCli nick = p → ks.Nodup → (∀ k ∈ ks, s.getCh k = some k) →
    eraseFromChs nick ks s = .ok (s.dropIn ks p)
  | [], s, _, _, _ => by
    have hmap : (s.dropIn [] p).chs = s.chs := by
      refine ExtTreeMap.ext_getElem? fun k => ?_
      simp [dropIn]
    show Except.ok s = Except.ok { s with chs := (s.dropIn [] p).chs }
    rw [hmap]
  | k :: ks, s, hn, hnodup, hks => by
    obtain ⟨hk, hnodup⟩ := List.nodup_cons.mp hnodup
    have hget := hks k (by simp)
    obtain ⟨ch, hch⟩ := mem_chs.mp (getCh_some hget).1
    have hrest := eraseFromChs_ok ks (s.updCh k fun _ => ch.drop p) hn hnodup
      fun j hj => by rw [getCh_updCh]; exact hks j (by simp [hj])
    have hmap : ((s.updCh k fun _ => ch.drop p).dropIn ks p).chs = (s.dropIn (k :: ks) p).chs := by
      refine ExtTreeMap.ext_getElem? fun j => ?_
      simp only [dropIn, ExtTreeMap.getElem?_map, getElem?_chs_put hch]
      by_cases hj : j = k
      · rw [if_pos hj, hj, hch, Option.map_some, Option.map_some, if_neg hk, if_pos (by simp)]
      · rw [if_neg hj]
        simp [hj]
    unfold eraseFromChs
    rw [eraseCliFromCh_ok hn hget hch]
    show eraseFromChs nick ks _ = _
    rw [hrest]
    show Except.ok { s with chs := ((s.updCh k fun _ => ch.drop p).dropIn ks p).chs } = _
    rw [hmap]
    rfl

theorem eraseFromChs_keys (hI : Inv s) :
    eraseFromChs nick s.chs.keys s = .ok (s.dropAll (s.getCli nick)) := by
  rw [← dropIn_keys]
  exact eraseFromChs_ok _ s rfl ExtTreeMap.nodup_keys
    fun k hk => getCh_self hI (ExtTreeMap.mem_keys.mp hk)

/-! ## Removing one client -/

/-- The removal of the client `c`. -/
def reap (s : Server) (c : Cli) : Server :=
  { s.dropAll (s.getCli c.nick) with clis := s.clis.erase c.fd }

theorem getElem?_clis_reap (fd : Nat) :
    (s.reap c).clis[fd]? = if fd = c.fd then none else s.clis[fd]? := by
  simp only [reap, ExtTreeMap.getElem?_erase, Std.compare_eq_iff_eq]
  exact if_congr eq_comm rfl rfl

theorem getElem?_chs_reap :
    (s.reap c).chs[k]? = (s.chs[k]?).map fun ch => ch.drop (s.getCli c.nick) :=
  getElem?_chs_dropAll

theorem mem_clients_reap (hI : Inv s) (hc : s.clis[c.fd]? = some c) :
    d ∈ (s.reap c).clients ↔ d ∈ s.clients ∧ d ≠ c := by
  simp only [mem_clients, getElem?_clis_reap]
  constructor
  · rintro ⟨fd, hd⟩
    split at hd
    · cases hd
    · rename_i hfd
      exact ⟨⟨fd, hd⟩, fun hdc => hfd (by rw [← hdc]; exact (hI.fd_eq fd d hd).symm)⟩
  · rintro ⟨⟨fd, hd⟩, hne⟩
    refine ⟨fd, ?_⟩
    rw [if_neg, hd]
    intro hfd
    rw [hfd, hc] at hd
    exact hne (Option.some.inj hd).symm

theorem cliAt_reap (hI : Inv s) (hc : s.clis[c.fd]? = some c) (hd : s.cliAt p = some d)
    (hne : d ≠ c) : (s.reap c).cliAt p = some d := by
  obtain ⟨hdm, hdp⟩ := cliAt_mem hd
  refine (cliAt_iff_of_inj fun a ha b hb => ?_).mpr ⟨(mem_clients_reap hI hc).mpr ⟨hdm, hne⟩, hdp⟩
  exact hI.addr_inj a ((mem_clients_reap hI hc).mp ha).1 b ((mem_clients_reap hI hc).mp hb).1

/-- The client that is looked up for `c` is `c` itself, or neither is on a channel. -/
theorem getCli_reap (hI : Inv s) (hc : c ∈ s.clients) : s.getCli c.nick = c.addr ∨
    ∀ (k : Str) (ch : Ch), s.chs[k]? = some ch → s.getCli c.nick ∉ ch.clis ∧ c.addr ∉ ch.clis := by
  have hat := cliAt_of_mem hI hc
  by_cases hn : c.nick = []
  · right
    have hnot : ∀ {q : Ptr} {d : Cli}, s.cliAt q = some d → d.nick = [] →
        ∀ (k : Str) (ch : Ch), s.chs[k]? = some ch → q ∉ ch.clis := by
      intro q d hd hdn k ch hch hq
      obtain ⟨d', hd', hreg⟩ := hI.member k ch hch q hq
      rw [hd] at hd'
      cases hd'
      exact (Cli.registered_iff.mp hreg).2.1 hdn
    have hne : s.getCli c.nick ≠ NULL := fun h0 => getCli_null hI h0 hc rfl
    obtain ⟨d, hd, hdn⟩ := getCli_ne_null hI hne
    have hdn : d.nick = [] := by
      rw [hn, toLower_nil, toLower_eq_nil] at hdn
      exact hdn
    exact fun k ch hch => ⟨hnot hd hdn k ch hch, hnot hat hn k ch hch⟩
  · exact .inl (getCli_eq hI hat hn rfl)

/-- The removed client is on no channel any more. -/
theorem not_mem_drop_reap (hI : Inv s) (hc : c ∈ s.clients) (hch : s.chs[k]? = some ch)
    (hq : q ∈ (ch.drop (s.getCli c.nick)).clis) : q ≠ c.addr ∧ q ∈ ch.clis := by
  rw [clis_drop, mem_erase_iff] at hq
  refine ⟨?_, hq.2⟩
  rcases getCli_reap hI hc with h | h
  · rw [← h]
    exact hq.1
  · intro hqc
    exact (h k ch hch).2 (hqc ▸ hq.2)

theorem inv_reap (hI : Inv s) (hc : s.clis[c.fd]? = some c) : Inv (s.reap c) := by
  have hcm : c ∈ s.clients := mem_clients.mpr ⟨c.fd, hc⟩
  have hsub : ∀ d ∈ (s.reap c).clients, d ∈ s.clients := fun d hd =>
    ((mem_clients_reap hI hc).mp hd).1
  have hkey : ∀ {k}, k ∈ (s.reap c).chs → k ∈ s.chs := fun hk => mem_chs_dropAll.mp hk
  refine ⟨fun d hd => hI.addr_ne d (hsub d hd),
    fun d hd e he => hI.addr_inj d (hsub d hd) e (hsub e he), fun fd d hd => ?fd_eq,
    fun d hd e he => hI.nick_inj d (hsub d hd) e (hsub e he),
    fun d hd => hI.nick_chars d (hsub d hd), fun k hk k' hk' => hI.ch_inj k (hkey hk) k' (hkey hk'),
    fun k hk => hI.ch_name k (hkey hk), fun k ch hch q hq => ?member, fun k ch hch => ?adm⟩
  case fd_eq =>
    rw [getElem?_clis_reap] at hd
    split at hd
    · cases hd
    · exact hI.fd_eq fd d hd
  case member =>
    rw [getElem?_chs_reap] at hch
    obtain ⟨ch₀, hch₀, rfl⟩ := Option.map_eq_some_iff.mp hch
    obtain ⟨hqc, hq⟩ := not_mem_drop_reap hI hcm hch₀ hq
    obtain ⟨d, hd, hreg⟩ := hI.member k ch₀ hch₀ q hq
    refine ⟨d, cliAt_reap hI hc hd fun hdc => hqc ?_, hreg⟩
    rw [← (cliAt_mem hd).2, hdc]
  case adm =>
    rw [getElem?_chs_reap] at hch
    obtain ⟨ch₀, hch₀, rfl⟩ := Option.map_eq_some_iff.mp hch
    exact adms_drop_subset (hI.adm k ch₀ hch₀)

/-! ## The loop over the marked descriptors -/

theorem inv_of_other (hI : Inv s) (hclis : s'.clis = s.clis) (hchs : s'.chs = s.chs) : Inv s' := by
  have hclients : s'.clients = s.clients := by unfold clients; rw [hclis]
  have hat : ∀ p, s'.cliAt p = s.cliAt p := fun p => by unfold cliAt; rw [hclients]
  refine ⟨?_, ?_, ?_, ?_, ?_, ?_, ?_, ?_, ?_⟩
  · rw [hclients]; exact hI.addr_ne
  · rw [hclients]; exact hI.addr_inj
  · rw [hclis]; exact hI.fd_eq
  · rw [hclients]; exact hI.nick_inj
  · rw [hclients]; exact hI.nick_chars
  · rw [hchs]; exact hI.ch_inj
  · rw [hchs]; exact hI.ch_name
  · simp only [hchs, hat]; exact hI.member
  · rw [hchs]; exact hI.adm

/-- One round: the client is removed, or kept because lines wait for it, or was gone before. -/
theorem eraseUnusedCli_cases (hI : Inv s) (fd : Nat) :
    (∃ c, s.clis[fd]? = some c ∧ c.bufToSend = [] ∧
      s.eraseUnusedCli fd = .ok ((s.reap c).erasePoll fd, true)) ∨
    (∃ c, s.clis[fd]? = some c ∧ c.bufToSend ≠ [] ∧ s.eraseUnusedCli fd = .ok (s, false)) ∨
    (s.clis[fd]? = none ∧ s.eraseUnusedCli fd = .ok (s.erasePoll fd, true)) := by
  unfold eraseUnusedCli
  cases hc : s.clis[fd]? with
  | none => exact .inr (.inr ⟨rfl, rfl⟩)
  | some c =>
    by_cases hb : c.bufToSend = []
    · refine .inl ⟨c, rfl, hb, ?_⟩
      show (if c.bufToSend = [] then eraseFromChs c.nick s.chs.keys s >>= _ else _) = _
      rw [if_pos hb, eraseFromChs_keys hI]
      unfold reap
      rw [hI.fd_eq fd c hc]
      rfl
    · refine .inr (.inl ⟨c, rfl, hb, ?_⟩)
      show (if c.bufToSend = [] then _ else Except.ok (s, false)) = _
      rw [if_neg hb]

section Loop

variable {P : Server → Prop}
  (hreap : ∀ s c, Inv s → P s → s.clis[c.fd]? = some c → c.bufToSend = [] → P (s.reap c))
  (hother : ∀ s s', s'.clis = s.clis → s'.chs = s.chs → s'.pass = s.pass →
    s'.fdForNewClis = s.fdForNewClis → P s → P s')

include hreap hother

theorem eraseClisLoop_done : ∀ (fds : List Nat) (s : Server), Inv s → P s →
    Outcome.Done (fun r => Inv r.1 ∧ P r.1) (eraseClisLoop fds s)
  | [], s, hI, hP => Outcome.done_ok ⟨hI, hP⟩
  | fd :: fds, s, hI, hP => by
    have hnext : ∀ s' b, s.eraseUnusedCli fd = .ok (s', b) → Inv s' → P s' →
        Outcome.Done (fun r => Inv r.1 ∧ P r.1) (eraseClisLoop (fd :: fds) s) := by
      intro s' b heq hI' hP'
      obtain ⟨⟨s'', r⟩, hr, h⟩ := eraseClisLoop_done fds s' hI' hP'
      unfold eraseClisLoop
      rw [heq]
      refine ⟨(s'', if b then fd :: r else r), ?_, h⟩
      show (eraseClisLoop fds s' >>= _) = _
      rw [hr]
      rfl
    rcases eraseUnusedCli_cases hI fd with ⟨c, hc, hb, heq⟩ | ⟨c, -, -, heq⟩ | ⟨-, heq⟩
    · rw [← hI.fd_eq fd c hc] at hc
      exact hnext _ _ heq (inv_of_other (inv_reap hI hc) rfl rfl)
        (hother (s.reap c) _ rfl rfl rfl rfl (hreap s c hI hP hc hb))
    · exact hnext _ _ heq hI hP
    · exact hnext _ _ heq (inv_of_other hI rfl rfl) (hother s _ rfl rfl rfl rfl hP)

/-- **What every removal preserves, `eraseUnusedClis` preserves.** -/
theorem eraseUnusedClis_done (hI : Inv s) (hP : P s) :
    Outcome.Done (fun s' => Inv s' ∧ P s') s.eraseUnusedClis := by
  obtain ⟨⟨s', r⟩, hr, hI', hP'⟩ := eraseClisLoop_done hreap hother s.fdsToErase.toList s hI hP
  unfold eraseUnusedClis
  rw [hr]
  exact ⟨_, rfl, inv_of_other hI' rfl rfl, hother s' _ rfl rfl rfl rfl hP'⟩

end Loop

/-! ## Freeing the empty channels -/

theorem inv_of_sub {m : ExtTreeMap Str Ch} (hI : Inv s)
    (hsub : ∀ (k : Str) (ch : Ch), m[k]? = some ch → s.chs[k]? = some ch) :
    Inv { s with chs := m } := by
  have hkey : ∀ k, k ∈ m → k ∈ s.chs := fun k hk => by
    rw [ExtTreeMap.mem_iff_isSome_getElem?, Option.isSome_iff_exists] at hk
    obtain ⟨ch, hch⟩ := hk
    exact mem_chs.mpr ⟨ch, hsub k ch hch⟩
  exact ⟨hI.addr_ne, hI.addr_inj, hI.fd_eq, hI.nick_inj, hI.nick_chars,
    fun k hk k' hk' => hI.ch_inj k (hkey k hk) k' (hkey k' hk'), fun k hk => hI.ch_name k (hkey k hk),
    fun k ch hch => hI.member k ch (hsub k ch hch), fun k ch hch => hI.adm k ch (hsub k ch hch)⟩

theorem eraseChsLoop_ok : ∀ (ks : List Str) (s : Server), Inv s → ks.Nodup →
    (∀ k ∈ ks, k ∈ s.chs) →
    eraseChsLoop ks s = .ok ({ s with chs := s.chs.filter fun k _ => k ∉ ks }, ks.map some)
  | [], s, _, _, _ => by
    have hmap : (s.chs.filter fun k _ => k ∉ ([] : List Str)) = s.chs := by
      refine ExtTreeMap.ext_getElem? fun k => ?_
      rw [ExtTreeMap.getElem?_filter']
      cases s.chs[k]? <;> rfl
    rw [hmap]
    rfl
  | k :: ks, s, hI, hnodup, hks => by
    obtain ⟨hk, hnodup⟩ := List.nodup_cons.mp hnodup
    have hget : s.getCh k = some k := getCh_self hI (hks k (by simp))
    have herase : ∀ j, (s.chs.erase k)[j]? = if k = j then none else s.chs[j]? := fun j => by
      rw [ExtTreeMap.getElem?_erase]
      simp only [Std.compare_eq_iff_eq]
    have hI' : Inv { s with chs := s.chs.erase k } := inv_of_sub hI fun j ch hj => by
      rw [herase] at hj
      split at hj
      · cases hj
      · exact hj
    have hrest := eraseChsLoop_ok ks { s with chs := s.chs.erase k } hI' hnodup fun j hj => by
      rw [ExtTreeMap.mem_erase]
      refine ⟨fun hc => hk ?_, hks j (by simp [hj])⟩
      rw [Std.compare_eq_iff_eq.mp hc]
      exact hj
    have hmap : ((s.chs.erase k).filter fun j _ => j ∉ ks) =
        s.chs.filter fun j _ => j ∉ k :: ks := by
      refine ExtTreeMap.ext_getElem? fun j => ?_
      rw [ExtTreeMap.getElem?_filter', ExtTreeMap.getElem?_filter', herase]
      by_cases hj : k = j
      · rw [if_pos hj, hj]
        cases s.chs[j]? with
        | none => rfl
        | some ch => simp
      · rw [if_neg hj]
        have hj' : j ≠ k := fun h => hj h.symm
        simp [hj']
    unfold eraseChsLoop eraseCh
    show ((if s.getCh k = none ∨ s.getCh k = some k then _ else _) >>= _) = _
    rw [if_pos (.inr hget), hget]
    show (eraseChsLoop ks { s with chs := s.chs.erase k } >>= _) = _
    rw [hrest]
    show Except.ok ({ s with chs := (s.chs.erase k).filter fun j _ => j ∉ ks }, _) = _
    rw [hmap]
    rfl

theorem mem_unusedChs : k ∈ s.unusedChs ↔ ∃ ch, s.chs[k]? = some ch ∧ ch.size = 0 := by
  simp only [unusedChs, List.mem_map, List.mem_filter, decide_eq_true_eq, Prod.exists,
    exists_eq_right, exists_and_right, ExtTreeMap.mem_toList_iff_getElem?_eq_some]

theorem nodup_unusedChs : s.unusedChs.Nodup := by
  have hkeys : (s.chs.toList.map (·.1)).Nodup := by
    rw [ExtTreeMap.map_fst_toList_eq_keys]
    exact ExtTreeMap.nodup_keys
  exact hkeys.sublist (List.filter_sublist.map _)

/-- **`eraseUnusedChs` removes the channels without members, and frees their objects.** -/
theorem eraseUnusedChs_ok (hI : Inv s) :
    s.eraseUnusedChs = .ok ({ s with chs := s.chs.filter fun _ ch => ch.size ≠ 0 },
      s.unusedChs.map some) := by
  have hmap : (s.chs.filter fun k _ => k ∉ s.unusedChs) = s.chs.filter fun _ ch => ch.size ≠ 0 := by
    refine ExtTreeMap.ext_getElem? fun k => ?_
    rw [ExtTreeMap.getElem?_filter', ExtTreeMap.getElem?_filter']
    cases hk : s.chs[k]? with
    | none => rfl
    | some ch => simp [mem_unusedChs, hk, Option.filter]
  unfold eraseUnusedChs
  rw [eraseChsLoop_ok _ s hI nodup_unusedChs fun k hk => ?_, hmap]
  obtain ⟨ch, hch, -⟩ := mem_unusedChs.mp hk
  exact mem_chs.mpr ⟨ch, hch⟩

end Server

end FtIrc
