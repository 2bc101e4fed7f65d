import FtIrc.Meaning.Cleanup
import FtIrc.Reach

/-!
# Members and names

What `Inv` means for the reachable configurations: no pointer kept in a channel dangles, no channel
is empty when the server waits (`members_reachable`), and a lookup by name has one answer, whatever
the order in which a map is iterated (`names_reachable`).  So the tests of membership by nick agree
with membership by pointer (`byNick_reachable`).
-/

namespace FtIrc

open Std Server

variable {s : Server} {x : Ptr} {c : Cli} {k : Str} {ch : Ch} {cfg : Config} {pass : Str} {lfd : Nat}

/-- **No dangling members**: the pointers of a channel are clients of the server, its operators are
members, no channel is empty at a call of `poll`, and `eraseUnusedChs` frees exactly the objects of
the empty channels and removes exactly their entries. -/
theorem members_reachable (hr : Reachable pass lfd cfg) :
    (∀ (k : Str) (ch : Ch), cfg.srv.chs[k]? = some ch →
      (∀ p, p ∈ ch.clis ∨ p ∈ ch.adms → ∃ (fd : Nat) (c : Cli), cfg.srv.clis[fd]? = some c ∧ c.addr = p) ∧
      (∀ p ∈ ch.adms, p ∈ ch.clis)) ∧
    (cfg.phase = .poll → ∀ (k : Str) (ch : Ch), cfg.srv.chs[k]? = some ch → ∃ p, p ∈ ch.clis) ∧
    ∃ s' freed, cfg.srv.eraseUnusedChs = .ok (s', freed) ∧
      (∀ (k : Str) (ch : Ch), s'.chs[k]? = some ch ↔ cfg.srv.chs[k]? = some ch ∧ ∃ p, p ∈ ch.clis) ∧
      freed.Nodup ∧ (∀ r : ChRef, r ∈ freed ↔
        ∃ k ch, r = some k ∧ cfg.srv.chs[k]? = some ch ∧ ∀ p, p ∉ ch.clis) ∧
      s' = { cfg.srv with chs := s'.chs } := by
  have hg := hr.good
  have hsize : ∀ ch : Ch, ch.size ≠ 0 ↔ ∃ p, p ∈ ch.clis := fun ch => by
    rw [ne_eq, Ch.size, size_eq_zero_iff]
    push Not
    rfl
  refine ⟨fun k ch hch => ⟨fun p hp => ?_, hg.inv.adm k ch hch⟩, fun hpoll k ch hch => ?_, ?_⟩
  · have hp : p ∈ ch.clis := hp.elim id (hg.inv.adm k ch hch p)
    obtain ⟨c, hc, -⟩ := hg.inv.member k ch hch p hp
    obtain ⟨hcm, hcp⟩ := cliAt_mem hc
    obtain ⟨fd, hfd⟩ := mem_clients.mp hcm
    exact ⟨fd, c, hfd, hcp⟩
  · exact (hsize ch).mp (hg.peopled (.inr hpoll) k ch hch)
  · refine ⟨_, _, eraseUnusedChs_ok hg.inv, fun k ch => ?_, ?_, fun r => ?_, rfl⟩
    · rw [← hsize]
      exact getElem?_filter_size
    · exact nodup_unusedChs.map (Option.some_injective _)
    · simp only [List.mem_map, mem_unusedChs]
      constructor
      · rintro ⟨k, ⟨ch, hch, h0⟩, rfl⟩
        exact ⟨k, ch, rfl, hch, size_eq_zero_iff.mp h0⟩
      · rintro ⟨k, ch, rfl, hch, hno⟩
        exact ⟨k, ⟨ch, hch, size_eq_zero_iff.mpr hno⟩, rfl⟩

/-- A client that has created a channel. -/
theorem members_reachable_join : ∃ cfg ch, runServer (str "2") 3
      (connect 0 alice ++ say 0 0 4 (register "al" ++ str "JOIN #foo\r\n")) = .ok cfg ∧
    cfg.srv.chs[str "#foo"]? = some ch ∧ alice.addr ∈ ch.clis ∧
    ∀ p, p ∈ ch.clis ∨ p ∈ ch.adms →
      ∃ (fd : Nat) (c : Cli), cfg.srv.clis[fd]? = some c ∧ c.addr = p := by
  obtain ⟨cfg, hrun, hP⟩ := exists_run (str "2") 3
    (connect 0 alice ++ say 0 0 4 (register "al" ++ str "JOIN #foo\r\n"))
    (fun cfg => On cfg.srv alice.addr (str "#foo")) (by decide +kernel)
  obtain ⟨ch, hch, hx⟩ := of_decide_eq_true hP
  exact ⟨cfg, ch, hrun, hch, hx, ((members_reachable ⟨_, hrun⟩).1 _ ch hch).1⟩

/-- **Unique names**: nicks of different clients and keys of different channels differ up to case,
members have nicks, and a lookup returns the only match, in whatever order the map is iterated. -/
theorem names_reachable (hr : Reachable pass lfd cfg) :
    (∀ (fd fd' : Nat) (c d : Cli), cfg.srv.clis[fd]? = some c → cfg.srv.clis[fd']? = some d →
      fd ≠ fd' → c.nick ≠ [] → d.nick ≠ [] → toLower c.nick ≠ toLower d.nick) ∧
    (∀ k ∈ cfg.srv.chs, ∀ k' ∈ cfg.srv.chs, k ≠ k' → toLower k ≠ toLower k') ∧
    (∀ (k : Str) (ch : Ch), cfg.srv.chs[k]? = some ch → ∀ p ∈ ch.clis,
      ∃ c, cfg.srv.cliAt p = some c ∧ c.nick ≠ []) ∧
    (∀ n ≠ [], (∀ c ∈ cfg.srv.clients, toLower c.nick = toLower n → cfg.srv.getCli n = c.addr) ∧
      ((∀ c ∈ cfg.srv.clients, toLower c.nick ≠ toLower n) → cfg.srv.getCli n = NULL) ∧
      ∀ l : List Cli, l.Perm cfg.srv.clients → cfg.srv.getCli n =
        ((l.find? fun c => toLower c.nick = toLower n).map (·.addr)).getD NULL) ∧
    (∀ name, (∀ k ∈ cfg.srv.chs, toLower k = toLower name → cfg.srv.getCh name = some k) ∧
      ((∀ k ∈ cfg.srv.chs, toLower k ≠ toLower name) → cfg.srv.getCh name = none) ∧
      ∀ l : List Str, l.Perm cfg.srv.chs.keys →
        cfg.srv.getCh name = l.find? fun k => toLower k = toLower name) := by
  have hI := hr.good.inv
  refine ⟨fun fd fd' c d hc hd hne hcn _ heq => ?_, fun k hk k' hk' hne heq => ?_,
    fun k ch hch p hp => ?_, fun n hn => ⟨fun c hc heq => ?_, fun hno => ?_, fun l hl => ?_⟩,
    fun name => ⟨fun k hk heq => getCh_eq hI hk heq, getCh_none_iff.mpr, fun l hl => ?_⟩⟩
  · have hcd := hI.nick_inj c (mem_clients.mpr ⟨fd, hc⟩) d (mem_clients.mpr ⟨fd', hd⟩) hcn heq
    rw [← hI.fd_eq fd c hc, ← hI.fd_eq fd' d hd, hcd] at hne
    exact hne rfl
  · exact hne (hI.ch_inj k hk k' hk' heq)
  · obtain ⟨c, hc, hreg⟩ := hI.member k ch hch p hp
    exact ⟨c, hc, (Cli.registered_iff.mp hreg).2.1⟩
  · refine getCli_eq hI (cliAt_of_mem hI hc) (fun h0 => hn ?_) heq
    rw [h0, toLower_nil] at heq
    exact toLower_eq_nil.mp heq.symm
  · by_contra h0
    obtain ⟨c, hc, heq⟩ := getCli_ne_null hI h0
    exact hno c (cliAt_mem hc).1 heq
  · rw [← List.find?_eq_find?_of_perm hl.symm]
    · unfold getCli
      cases cfg.srv.clients.find? fun c => decide (toLower c.nick = toLower n) <;> rfl
    · rintro c ⟨hc, hcn⟩ d ⟨hd, hdn⟩
      simp only [decide_eq_true_eq] at hcn hdn
      refine hI.nick_inj c hc d hd (fun h0 => hn ?_) (hcn.trans hdn.symm)
      rw [h0, toLower_nil] at hcn
      exact toLower_eq_nil.mp hcn.symm
  · refine List.find?_eq_find?_of_perm hl.symm ?_
    rintro k ⟨hk, hkn⟩ k' ⟨hk', hkn'⟩
    simp only [decide_eq_true_eq] at hkn hkn'
    exact hI.ch_inj k (ExtTreeMap.mem_keys.mp hk) k' (ExtTreeMap.mem_keys.mp hk')
      (hkn.trans hkn'.symm)

/-- The lookup of a nick in other case. -/
theorem names_reachable_two : ∃ cfg c, runServer (str "2") 3
      (connect 0 alice ++ say 0 0 3 (register "al") ++ connect 1 bob ++ say 1 0 3 (register "bo")) =
        .ok cfg ∧
    c ∈ cfg.srv.clients ∧ c.nick = str "al" ∧ cfg.srv.getCli (str "AL") = c.addr := by
  obtain ⟨cfg, hrun, hP⟩ := exists_run (str "2") 3
    (connect 0 alice ++ say 0 0 3 (register "al") ++ connect 1 bob ++ say 1 0 3 (register "bo"))
    (fun cfg => cfg.srv.clients.any fun c => c.nick = str "al") (by decide +kernel)
  obtain ⟨c, hc, hn⟩ := List.any_eq_true.mp hP
  have hn : c.nick = str "al" := of_decide_eq_true hn
  refine ⟨cfg, c, hrun, hc, hn, ?_⟩
  refine ((names_reachable ⟨_, hrun⟩).2.2.2.1 (str "AL") (by decide)).1 c hc ?_
  rw [hn]
  decide

/-! ## Members by nick and by pointer -/

namespace Server

/-- The departure of a client by its nick; `getCli` may find another client without a nick, which is
not on the channel either. -/
theorem eraseCliFromCh_self (hI : Inv s) (hc : s.cliAt x = some c) (hch : s.chs[k]? = some ch) :
    s.eraseCliFromCh c.nick k = .ok (s.updCh k fun _ => ch.drop x) := by
  obtain ⟨hcm, rfl⟩ := cliAt_mem hc
  rw [eraseCliFromCh_ok rfl (getCh_self hI (mem_chs.mpr ⟨ch, hch⟩)) hch]
  rcases getCli_reap hI hcm with h | h
  · rw [h]
  · obtain ⟨h1, h2⟩ := h k ch hch
    rw [drop_of_not_mem h1 h2 (hI.adm k ch hch)]

/-- The channels on which a client is found by its nick are the channels it is on. -/
theorem getCliOnCh_ne_null (hI : Inv s) (hc : s.cliAt x = some c) (hk : k ∈ s.chs) :
    s.getCliOnCh c.nick k ≠ .ok NULL ↔ On s x k := by
  obtain ⟨ch, hch⟩ := mem_chs.mp hk
  rw [getCliOnCh_self hI hch hc rfl, on_iff hch]
  by_cases hx : x ∈ ch.clis
  · rw [if_pos hx]
    refine ⟨fun _ => hx, fun _ h => ne_null_of_cliAt hI hc ?_⟩
    injection h
  · rw [if_neg hx]
    exact ⟨fun h => absurd rfl h, fun h => absurd h hx⟩

end Server

/-- **Membership by nick is membership by pointer**: the scans of a channel for the nick of a client
find the client exactly if it is a member or an operator, the channels on which it is found so are
those counted by `nbChannels`, and `eraseCliFromCh` removes the client and nobody else. -/
theorem byNick_reachable (hr : Reachable pass lfd cfg) :
    ∀ x c, cfg.srv.cliAt x = some c →
      (∀ (k : Str) (ch : Ch), cfg.srv.chs[k]? = some ch →
        cfg.srv.getCliOnCh c.nick k = .ok (if x ∈ ch.clis then x else NULL) ∧
        cfg.srv.getAdmOnCh c.nick k = .ok (if x ∈ ch.adms then x else NULL) ∧
        ∃ s' ch', cfg.srv.eraseCliFromCh c.nick k = .ok s' ∧ s' = { cfg.srv with chs := s'.chs } ∧
          (∀ k' : Str, s'.chs[k']? = if k' = k then some ch' else cfg.srv.chs[k']?) ∧
          (∀ p, p ∈ ch'.clis ↔ p ∈ ch.clis ∧ p ≠ x) ∧
          x ∉ ch'.adms ∧ ∀ p ∈ ch.adms, p ≠ x → p ∈ ch'.adms) ∧
      (∀ k ∈ cfg.srv.chs, cfg.srv.getCliOnCh c.nick k ≠ .ok NULL ↔ On cfg.srv x k) ∧
      cfg.srv.nbChannels x = (cfg.srv.chs.keys.filter fun k => On cfg.srv x k).length := by
  have hI := hr.good.inv
  intro x c hc
  refine ⟨fun k ch hch => ⟨getCliOnCh_self hI hch hc rfl, getAdmOnCh_self hI hch hc rfl, _, ch.drop x,
    eraseCliFromCh_self hI hc hch, rfl, fun k' => ?_, fun p => ?_, fun hx => ?_, fun p hp hne => ?_⟩,
    fun k hk => getCliOnCh_ne_null hI hc hk, nbChannels_eq cfg.srv x⟩
  · rw [getElem?_chs_updCh]
    by_cases hk : k' = k
    · rw [if_pos hk, if_pos hk, hk, hch]
      rfl
    · rw [if_neg hk, if_neg hk]
  · rw [clis_drop, mem_erase_iff, and_comm]
  · -- an operator that has left would be a member
    have hmem := adms_drop_subset (hI.adm k ch hch) x hx
    rw [clis_drop, mem_erase_iff] at hmem
    exact hmem.1 rfl
  · rcases adms_drop ch x with ⟨hadm, -⟩ | ⟨hall, -⟩
    · rw [hadm, mem_erase_iff]
      exact ⟨hne, hp⟩
    · exact absurd (hall p hp) hne

/-- A client without a nick is not found on the channel of another. -/
theorem byNick_reachable_nickless : ∃ cfg c ch, runServer (str "2") 3
      (connect 0 alice ++ say 0 0 4 (register "al" ++ str "JOIN #foo\r\n") ++ drain 0 0 131 ++
        connect 1 bob) = .ok cfg ∧
    cfg.srv.cliAt bob.addr = some c ∧ c.nick = [] ∧ cfg.srv.chs[str "#foo"]? = some ch ∧
    cfg.srv.getCliOnCh [] (str "#foo") = .ok (if bob.addr ∈ ch.clis then bob.addr else NULL) := by
  obtain ⟨cfg, hrun, hP⟩ := exists_run (str "2") 3
    (connect 0 alice ++ say 0 0 4 (register "al" ++ str "JOIN #foo\r\n") ++ drain 0 0 131 ++
      connect 1 bob)
    (fun cfg => (cfg.srv.cliAt bob.addr).any (·.nick = []) && (cfg.srv.chs[str "#foo"]?).isSome)
    (by decide +kernel)
  rw [Bool.and_eq_true, Option.any_eq_true, Option.isSome_iff_exists] at hP
  obtain ⟨⟨c, hc, hn⟩, ch, hch⟩ := hP
  have hn : c.nick = [] := of_decide_eq_true hn
  refine ⟨cfg, c, ch, hrun, hc, hn, hch, ?_⟩
  rw [← hn]
  exact ((byNick_reachable ⟨_, hrun⟩ _ c hc).1 _ ch hch).1

end FtIrc
