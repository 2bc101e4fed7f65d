import FtIrc.Lib.Ledger
import FtIrc.Lib.Trace
import FtIrc.Descriptors
import FtIrc.Spelling.Outcome

/-!
# Descriptors and objects

What the program has to give back: descriptors (`accept`, `close`), records (`new Cli`, `delete`) and channels
(`new Ch`, `delete`).  `entries` lists what a transition acquires and releases, read off the places of the source
where it does; `Server.holdings` is what the destructor releases, in its order.

* `execLine_allocates` — the channels that a command allocates are the ones it puts into `chs`.
* `Move.posts` — what a transition acquires and releases can be posted to what the server holds, and makes it what
  the server holds after the transition.
-/

namespace FtIrc

open Std Outcome Server Ledger

variable {s s' t u : Server} {x p : Ptr} {c d : Cli} {ar names passes news fds : List Str} {k a1 name pass : Str}
  {fd lfd : Nat} {ch : Ch} {phase phase' : Phase} {i : Input} {cfg cfg' : Config} {msg : Str} {r : ChRef}

inductive Resource where
  | fd (fd : Nat)
  | cli (p : Ptr)
  | ch (k : Str)
  deriving DecidableEq, Repr

namespace Server

/-! ## What is released -/

/-- What the loop of `eraseUnusedClis` closes and deletes. -/
def eraseClisLog : List Nat → Server → List (Entry Resource)
  | [], _ => []
  | fd :: fds, s =>
    let entries :=
      match s.clis[fd]? with
      | some c => if c.bufToSend = [] then [.release (.fd fd), .release (.cli c.addr)] else []
      | none => []
    match s.eraseUnusedCli fd with
    | .ok (s, _) => entries ++ eraseClisLog fds s
    | .error _ => entries

/-- What `eraseUnusedChs` deletes; deleting a null pointer is nothing. -/
def eraseChsLog (s : Server) : List (Entry Resource) :=
  match s.eraseUnusedChs with
  | .ok (_, freed) => freed.filterMap (·.map fun k => .release (.ch k))
  | .error _ => []

/-- What `~Server` deletes and closes, in order. -/
def holdings (s : Server) : List Resource :=
  s.chs.keys.map .ch ++ s.clis.toList.flatMap (fun e => [.fd e.1, .cli e.2.addr]) ++ [.fd s.fdForNewClis]

/-! ## What is allocated -/

/-- The channels that the loop of `execJoin` allocates. -/
def joinNews (cli : Ptr) (c : Cli) (a1 : Str) : List Str → List Str → Server → Except Fault (List Str)
  | [], _, _ => .ok []
  | chName :: chNames, passes, s =>
    if MAX_CHS_PER_USER - 1 < s.nbChannels cli then .ok []
    else do
      let bad ← badChName chName
      if bad then do
        let s ← s.prepareResp cli (str "403 " ++ chName ++ str " :No such channel")
        joinNews cli c a1 chNames passes s
      else do
        let p ← s.getCliOnCh c.nick chName
        if p ≠ NULL then do
          let s ← s.prepareResp cli (str ":you are already on channel " ++ chName)
          joinNews cli c a1 chNames passes s
        else do
          let new := if s.getCh chName = none then [chName] else []
          let s :=
            if s.getCh chName = none then { s with chs := s.chs.insert chName (Ch.new cli) } else s
          let s ← s.joinCh cli c chName (passes.headD [])
          let rest ← joinNews cli c a1 chNames passes.tail s
          .ok (new ++ rest)

/-- The channels that `execJoin` allocates. -/
def execJoinNews (s : Server) (cli : Ptr) (ar : List Str) : Except Fault (List Str) := do
  let c ← s.deref cli
  if c.registered = false then .ok []
  else if ar.length < 2 then .ok []
  else do
    let a1 ← arg ar 1
    if ar.length = 2 ∧ a1 = str "0" then .ok []
    else
      let chNames := splitArgToSubargs a1
      if tooManyTargets chNames then .ok []
      else do
        let passes ←
          if 3 ≤ ar.length then do let a2 ← arg ar 2; .ok (splitArgToSubargs a2) else .ok []
        joinNews cli c a1 chNames passes s

/-- The channels that `execCmd` allocates.  The other `new Ch` of the source, in `execInvite`, stands behind a test
that has made the handler return before. -/
def execCmdNews (s : Server) (cli : Ptr) (ar : List Str) : Except Fault (List Str) :=
  if ar.head? = some (str "JOIN") then s.execJoinNews cli ar else .ok []

end Server

/-- What a transition acquires and releases. -/
def entries (cfg : Config) (i : Input) : List (Entry Resource) :=
  match cfg.phase, i with
  | .clis, _ => eraseClisLog cfg.srv.fdsToErase.toList cfg.srv
  | .chs, _ => cfg.srv.eraseChsLog
  | .events _, .accept (some conn) => [.acquire (.fd conn.fd), .acquire (.cli conn.addr)]
  | .cmds x (line :: _) _, _ =>
    match cfg.srv.execCmdNews x (splitCmdToArgs line) with
    | .ok news => news.map fun k => .acquire (.ch k)
    | .error _ => []
  | _, _ => []

/-! ## The channels that a command allocates -/

/-- The keys of `chs` are the same. -/
def SameKeys (s s' : Server) : Prop := ∀ k, k ∈ s'.chs ↔ k ∈ s.chs

theorem SameKeys.refl (s : Server) : SameKeys s s := fun _ => Iff.rfl

theorem SameKeys.trans (h : SameKeys s s') (h' : SameKeys s' t) : SameKeys s t := fun k => (h' k).trans (h k)

theorem sameKeys_prepareResp (h : s.prepareResp p msg = .ok s') : SameKeys s s' := by
  obtain ⟨d, -, h⟩ := bind_ok_iff.mp h
  cases h
  exact .refl s

theorem sameKeys_prepareRespAll : ∀ (ps : List Ptr) (s : Server), prepareRespAll msg ps s = .ok s' → SameKeys s s'
  | [], s, h => by
    cases h
    exact .refl s'
  | p :: ps, s, h => by
    obtain ⟨t, ht, h⟩ := bind_ok_iff.mp h
    exact (sameKeys_prepareResp ht).trans (sameKeys_prepareRespAll ps t h)

theorem sameKeys_broadcast (h : s.prepareRespAuthorIncluding r msg = .ok s') : SameKeys s s' := by
  obtain ⟨ch, -, h⟩ := bind_ok_iff.mp h
  exact sameKeys_prepareRespAll _ s h

theorem sameKeys_setCh {f : Ch → Ch} (h : s.setCh name f = .ok s') : SameKeys s s' := by
  unfold setCh at h
  split at h
  · cases h
  · cases h
    exact fun k => mem_chs_updCh _

theorem sameKeys_joinCh (h : s.joinCh x c name pass = .ok s') : SameKeys s s' := by
  unfold joinCh at h
  obtain ⟨me, -, h⟩ := bind_ok_iff.mp h
  obtain ⟨ch, -, h⟩ := bind_ok_iff.mp h
  split at h
  · exact sameKeys_prepareResp h
  split at h
  · exact sameKeys_prepareResp h
  split at h
  · exact sameKeys_prepareResp h
  obtain ⟨s₁, h₁, h⟩ := bind_ok_iff.mp h
  obtain ⟨s₂, h₂, h⟩ := bind_ok_iff.mp h
  obtain ⟨ch', -, h⟩ := bind_ok_iff.mp h
  have hsent : SameKeys s s₂ := by
    refine (sameKeys_setCh h₁).trans (SameKeys.trans ?_ (sameKeys_broadcast h₂))
    split
    · exact .refl s₁
    · exact .refl s₁
  split at h
  · obtain ⟨s₃, h₃, h⟩ := bind_ok_iff.mp h
    obtain ⟨us, -, h⟩ := bind_ok_iff.mp h
    exact hsent.trans ((sameKeys_prepareResp h₃).trans (sameKeys_broadcast h))
  · obtain ⟨s₃, h₃, h⟩ := bind_ok_iff.mp h
    cases h₃
    obtain ⟨us, -, h⟩ := bind_ok_iff.mp h
    exact hsent.trans (sameKeys_broadcast h)

/-- The keys of `chs` afterwards are those before and `news`, which are new. -/
structure Allocates (s s' : Server) (news : List Str) : Prop where
  nodup : news.Nodup
  fresh : ∀ k ∈ news, k ∉ s.chs
  keys : ∀ k, k ∈ s'.chs ↔ k ∈ s.chs ∨ k ∈ news

theorem SameKeys.allocates (h : SameKeys s s') : Allocates s s' [] :=
  ⟨.nil, by simp, fun k => by simp [h k]⟩

theorem Allocates.after (hs : SameKeys s s') (h : Allocates s' t news) : Allocates s t news :=
  ⟨h.nodup, fun k hk hin => h.fresh k hk ((hs k).mpr hin), fun k => by rw [h.keys k, hs k]⟩

theorem Allocates.cons (hfree : name ∉ s.chs) (hkeys : ∀ k, k ∈ s'.chs ↔ k ∈ s.chs ∨ k = name)
    (h : Allocates s' t news) : Allocates s t (name :: news) := by
  refine ⟨List.nodup_cons.mpr ⟨fun hin => h.fresh name hin ((hkeys name).mpr (.inr rfl)), h.nodup⟩,
    fun k hk hin => ?_, fun k => ?_⟩
  · rcases List.mem_cons.mp hk with rfl | hk
    · exact hfree hin
    · exact h.fresh k hk ((hkeys k).mpr (.inl hin))
  · rw [h.keys k, hkeys k, List.mem_cons]
    tauto

theorem mem_insert_chs : k ∈ s.chs.insert name ch ↔ k ∈ s.chs ∨ k = name := by
  rw [ExtTreeMap.mem_insert, Std.compare_eq_iff_eq]
  tauto

/-- **The loop of `execJoin`** puts into `chs` what it allocates. -/
theorem joinLoop_allocates : ∀ (names passes : List Str) (s : Server),
    joinLoop x c a1 names passes s = .ok s' →
      ∃ news, joinNews x c a1 names passes s = .ok news ∧ Allocates s s' news
  | [], passes, s, h => by
    cases h
    exact ⟨[], rfl, (SameKeys.refl s').allocates⟩
  | name :: names, passes, s, h => by
    unfold joinLoop at h
    unfold joinNews
    split at h
    · rename_i hmany
      rw [if_pos hmany]
      exact ⟨[], rfl, (sameKeys_prepareResp h).allocates⟩
    rename_i hmany
    rw [if_neg hmany]
    obtain ⟨bad, hbad, h⟩ := bind_ok_iff.mp h
    rw [hbad]
    simp only [bind, Except.bind]
    split at h
    · -- the name is refused
      rename_i hb
      rw [if_pos hb]
      obtain ⟨t, ht, h⟩ := bind_ok_iff.mp h
      obtain ⟨news, hnews, halloc⟩ := joinLoop_allocates names passes t h
      rw [ht]
      exact ⟨news, hnews, halloc.after (sameKeys_prepareResp ht)⟩
    rename_i hb
    rw [if_neg hb]
    obtain ⟨p, hp, h⟩ := bind_ok_iff.mp h
    rw [hp]
    simp only
    split at h
    · -- the client is on the channel
      rename_i hon
      rw [if_pos hon]
      obtain ⟨t, ht, h⟩ := bind_ok_iff.mp h
      obtain ⟨news, hnews, halloc⟩ := joinLoop_allocates names passes t h
      rw [ht]
      exact ⟨news, hnews, halloc.after (sameKeys_prepareResp ht)⟩
    rename_i hon
    rw [if_neg hon]
    obtain ⟨t, ht, h⟩ := bind_ok_iff.mp h
    obtain ⟨rest, hrest, halloc⟩ := joinLoop_allocates names passes.tail t h
    have hsame := sameKeys_joinCh ht
    by_cases hget : s.getCh name = none
    · rw [if_pos hget] at ht hsame ⊢
      rw [if_pos hget, ht]
      simp only
      rw [hrest]
      refine ⟨name :: rest, rfl, halloc.cons (fun hin => getCh_none_iff.mp hget name hin rfl) fun k => ?_⟩
      rw [hsame k]
      exact mem_insert_chs
    · rw [if_neg hget] at ht hsame ⊢
      rw [if_neg hget, ht]
      simp only
      rw [hrest]
      exact ⟨rest, rfl, halloc.after hsame⟩

/-- Only a `JOIN` of a registered client with a list makes channels. -/
theorem Steps.sameKeys (h : Steps s x ar s')
    (hno : IsReg s x → CmdIs ar "JOIN" → PartCmd ar ∨ ar[1]? = none) : SameKeys s s' := by
  induction h with
  | refl => exact .refl s
  | tail _ heff ih =>
    refine ih.trans fun k => ?_
    cases heff with
    | cli _ _ _ _ _ => exact Iff.rfl
    | ch j _ _ _ _ _ => exact mem_chs_updCh _
    | newCh j hreg hcmd hnp _ ha1 _ =>
      obtain ⟨a1, ha1, -⟩ := ha1
      rcases hno hreg hcmd with hp | hnone
      · exact absurd hp hnp
      · rw [hnone] at ha1
        cases ha1
    | mark _ _ _ => exact Iff.rfl

theorem execJoin_allocates (hI : Inv s) (hc : s.cliAt x = some c) (hsteps : Steps s x ar s')
    (h : s.execJoin x ar = .ok s') : ∃ news, s.execJoinNews x ar = .ok news ∧ Allocates s s' news := by
  have hquiet : (IsReg s x → CmdIs ar "JOIN" → PartCmd ar ∨ ar[1]? = none) → Allocates s s' [] :=
    fun hno => (hsteps.sameKeys hno).allocates
  unfold execJoinNews
  rw [deref_of_cliAt hI hc]
  simp only [bind, Except.bind]
  split
  · rename_i hreg
    refine ⟨[], rfl, hquiet fun hr => ?_⟩
    rw [isReg_iff hc, hreg] at hr
    cases hr
  rename_i hreg
  have hreg : c.registered = true := by simpa using hreg
  split
  · rename_i hshort
    exact ⟨[], rfl, hquiet fun _ _ => .inr (List.getElem?_eq_none (by omega))⟩
  rename_i hlong
  obtain ⟨a1, ha1⟩ := exists_arg ar 1 (by omega)
  rw [arg_ok ha1]
  simp only
  split
  · rename_i hz
    exact ⟨[], rfl, hquiet fun _ hcmd => .inl (.inr ⟨hcmd, hz.1, hz.2 ▸ ha1⟩)⟩
  rename_i hz
  rw [execJoin_eq hI hc hreg ha1 hz] at h
  split
  · rename_i hmany
    rw [if_pos hmany] at h
    exact ⟨[], rfl, (sameKeys_prepareResp h).allocates⟩
  rename_i hfew
  rw [if_neg hfew] at h
  obtain ⟨news, hnews, halloc⟩ := joinLoop_allocates _ _ _ h
  refine ⟨news, ?_, halloc⟩
  by_cases h3 : 3 ≤ ar.length
  · obtain ⟨a2, ha2⟩ := exists_arg ar 2 (by omega)
    have hkeys : joinKeys ar = splitArgToSubargs a2 := by simp [joinKeys, ha2]
    rw [if_pos h3, arg_ok ha2, ← hnews, hkeys]
  · have hkeys : joinKeys ar = [] := by
      simp [joinKeys, List.getElem?_eq_none (by omega : ar.length ≤ 2)]
    rw [if_neg h3, ← hnews, hkeys]

/-- **A command** puts into `chs` the channels that it allocates. -/
theorem execLine_allocates {line : Str} (hI : Inv s) (hc : s.cliAt x = some c) (h : s.execLine x line = .ok s') :
    ∃ news, s.execCmdNews x (splitCmdToArgs line) = .ok news ∧ Allocates s s' news := by
  obtain ⟨u, hexec, rfl, -, -, hsteps⟩ := execLine_run hI hc h
  have hsame : SameKeys u (u.note x (splitCmdToArgs line)) := .refl u
  by_cases hjoin : CmdIs (splitCmdToArgs line) "JOIN"
  · rw [execCmd_join hjoin] at hexec
    obtain ⟨news, hnews, halloc⟩ := execJoin_allocates hI hc hsteps hexec
    refine ⟨news, ?_, ⟨halloc.nodup, halloc.fresh, fun k => (hsame k).trans (halloc.keys k)⟩⟩
    rw [← hnews]
    exact if_pos hjoin
  · refine ⟨[], if_neg hjoin, SameKeys.allocates ((hsteps.sameKeys fun _ hcmd => absurd hcmd hjoin).trans hsame)⟩

/-! ## What the server holds -/

namespace Server

def held (s : Server) : Finset Resource := s.holdings.toFinset

theorem fd_mem_held : .fd fd ∈ s.held ↔ fd = s.fdForNewClis ∨ fd ∈ s.clis := by
  unfold held holdings
  simp only [List.mem_toFinset, List.mem_append, List.mem_map, List.mem_flatMap, List.mem_cons, List.not_mem_nil,
    or_false, reduceCtorEq, and_false, exists_false, false_or, Resource.fd.injEq]
  rw [← ExtTreeMap.mem_keys, ← ExtTreeMap.map_fst_toList_eq_keys, List.mem_map]
  constructor
  · rintro (⟨e, he, rfl⟩ | rfl)
    · exact .inr ⟨e, he, rfl⟩
    · exact .inl rfl
  · rintro (rfl | ⟨e, he, rfl⟩)
    · exact .inr rfl
    · exact .inl ⟨e, he, rfl⟩

theorem cli_mem_held : .cli p ∈ s.held ↔ ∃ c ∈ s.clients, c.addr = p := by
  unfold held holdings clients
  simp only [List.mem_toFinset, List.mem_append, List.mem_map, List.mem_flatMap, List.mem_cons, List.not_mem_nil,
    or_false, reduceCtorEq, and_false, exists_false, false_or, Resource.cli.injEq]
  constructor
  · rintro ⟨e, he, rfl⟩
    exact ⟨e.2, ⟨e, he, rfl⟩, rfl⟩
  · rintro ⟨c, ⟨e, he, rfl⟩, rfl⟩
    exact ⟨e, he, rfl⟩

theorem ch_mem_held : .ch k ∈ s.held ↔ k ∈ s.chs := by
  unfold held holdings
  simp [ExtTreeMap.mem_keys]

/-- What is held depends on the descriptors, the addresses and the keys. -/
theorem held_congr (hlfd : s'.fdForNewClis = s.fdForNewClis) (hfds : ∀ fd, fd ∈ s'.clis ↔ fd ∈ s.clis)
    (haddrs : ∀ p, (∃ c ∈ s'.clients, c.addr = p) ↔ ∃ c ∈ s.clients, c.addr = p) (hkeys : SameKeys s s') :
    s'.held = s.held := by
  ext r
  cases r with
  | fd fd => rw [fd_mem_held, fd_mem_held, hlfd, hfds]
  | cli p => rw [cli_mem_held, cli_mem_held, haddrs]
  | ch k => rw [ch_mem_held, ch_mem_held, hkeys]

/-- The destructor releases everything once. -/
theorem nodup_holdings (hI : Inv s) (hl : s.fdForNewClis ∉ s.clis) : s.holdings.Nodup := by
  have hkeys : (s.clis.toList.map (·.1)).Nodup := by
    rw [ExtTreeMap.map_fst_toList_eq_keys]
    exact ExtTreeMap.nodup_keys
  have hmem : ∀ e ∈ s.clis.toList, s.clis[e.1]? = some e.2 := fun e he =>
    ExtTreeMap.mem_toList_iff_getElem?_eq_some.mp he
  have hpairs : (s.clis.toList.flatMap fun e => [Resource.fd e.1, .cli e.2.addr]).Nodup := by
    refine List.nodup_flatMap.mpr ⟨fun e _ => by simp, ?_⟩
    refine (List.pairwise_map.mp hkeys).imp_of_mem fun {e e'} he he' hne => ?_
    have haddr : e.2.addr ≠ e'.2.addr := by
      intro ha
      have h1 := hmem e he
      have h2 := hmem e' he'
      have heq := hI.addr_inj e.2 (mem_clients.mpr ⟨_, h1⟩) e'.2 (mem_clients.mpr ⟨_, h2⟩) ha
      exact hne (by rw [← hI.fd_eq _ _ h1, ← hI.fd_eq _ _ h2, heq])
    simp [List.disjoint_left, hne, haddr]
  unfold holdings
  refine List.nodup_append.mpr ⟨List.nodup_append.mpr ⟨?_, hpairs, ?_⟩, by simp, ?_⟩
  · exact ExtTreeMap.nodup_keys.map fun a b hab => Resource.ch.inj hab
  · intro a ha b hb hab
    obtain ⟨k, -, rfl⟩ := List.mem_map.mp ha
    obtain ⟨e, -, hb⟩ := List.mem_flatMap.mp hb
    subst hab
    simp at hb
  · intro a ha b hb hab
    subst hab
    rw [List.mem_singleton.mp hb] at ha
    rcases List.mem_append.mp ha with ha | ha
    · obtain ⟨k, -, hk⟩ := List.mem_map.mp ha
      cases hk
    · obtain ⟨e, he, hfd⟩ := List.mem_flatMap.mp ha
      simp only [List.mem_cons, Resource.fd.injEq, reduceCtorEq, List.not_mem_nil, or_false] at hfd
      exact hl (hfd ▸ mem_of_getElem?_clis (hmem e he))

end Server

/-! ## The transitions -/

theorem held_reap (hI : Inv s) (hl : s.fdForNewClis ∉ s.clis) (hc : s.clis[c.fd]? = some c) :
    (s.reap c).held = (s.held.erase (.fd c.fd)).erase (.cli c.addr) := by
  have hcm : c ∈ s.clients := mem_clients.mpr ⟨_, hc⟩
  ext r
  cases r with
  | fd fd =>
    simp only [Finset.mem_erase, ne_eq, reduceCtorEq, not_false_eq_true, true_and, Resource.fd.injEq, fd_mem_held]
    show fd = s.fdForNewClis ∨ fd ∈ s.clis.erase c.fd ↔ _
    rw [ExtTreeMap.mem_erase]
    simp only [ne_eq, Std.compare_eq_iff_eq]
    constructor
    · rintro (rfl | ⟨hne, hin⟩)
      · exact ⟨fun he => hl (he ▸ mem_of_getElem?_clis hc), .inl rfl⟩
      · exact ⟨fun he => hne he.symm, .inr hin⟩
    · rintro ⟨hne, rfl | hin⟩
      · exact .inl rfl
      · exact .inr ⟨fun he => hne he.symm, hin⟩
  | cli p =>
    simp only [Finset.mem_erase, ne_eq, reduceCtorEq, not_false_eq_true, true_and, Resource.cli.injEq, cli_mem_held,
      mem_clients_reap hI hc]
    constructor
    · rintro ⟨d, ⟨hd, hne⟩, rfl⟩
      exact ⟨fun he => hne (hI.addr_inj d hd c hcm he), d, hd, rfl⟩
    · rintro ⟨hne, d, hd, rfl⟩
      exact ⟨d, ⟨hd, fun he => hne (he ▸ rfl)⟩, rfl⟩
  | ch k =>
    simp only [Finset.mem_erase, ne_eq, reduceCtorEq, not_false_eq_true, true_and, ch_mem_held]
    simp [reap, dropAll]

/-- **`eraseUnusedClis`** closes and deletes what it removes from `clis`. -/
theorem eraseClisLog_posts : ∀ (fds : List Nat) (s : Server) (r : Server × List Nat), Inv s →
    s.fdForNewClis ∉ s.clis → eraseClisLoop fds s = .ok r →
      Runs.run post (eraseClisLog fds s) s.held = .ok r.1.held
  | [], s, r, _, _, h => by
    cases h
    rfl
  | fd :: fds, s, r, hI, hl, h => by
    unfold eraseClisLoop at h
    obtain ⟨⟨t, removed⟩, ht, h⟩ := bind_ok_iff.mp h
    obtain ⟨⟨t', rest⟩, ht', h⟩ := bind_ok_iff.mp h
    cases h
    unfold eraseClisLog
    rcases eraseUnusedCli_cases hI fd with ⟨c, hc, hb, heq⟩ | ⟨c, hc, hb, heq⟩ | ⟨hc, heq⟩
    · -- a client is removed
      rw [heq] at ht
      cases ht
      have hfd := hI.fd_eq fd c hc
      have hc' : s.clis[c.fd]? = some c := by rw [hfd]; exact hc
      have hI' : Inv ((s.reap c).erasePoll fd) := inv_of_other (inv_reap hI hc') rfl rfl
      have hl' : s.fdForNewClis ∉ s.clis.erase c.fd := fun hin => hl (ExtTreeMap.mem_of_mem_erase hin)
      have hrest := eraseClisLog_posts fds ((s.reap c).erasePoll fd) (t', rest) hI' hl' ht'
      simp only [heq, hc, if_pos hb]
      have h1 : Resource.fd fd ∈ s.held := fd_mem_held.mpr (.inr (mem_of_getElem?_clis hc))
      have h2 : Resource.cli c.addr ∈ s.held.erase (.fd fd) :=
        Finset.mem_erase.mpr ⟨by simp, cli_mem_held.mpr ⟨c, mem_clients.mpr ⟨fd, hc⟩, rfl⟩⟩
      refine Runs.run_cons_ok.mpr ⟨_, post_release h1, Runs.run_cons_ok.mpr ⟨_, post_release h2, ?_⟩⟩
      have hheld := held_reap hI hl hc'
      rw [hfd] at hheld
      rw [← hheld]
      exact hrest
    · -- lines wait for it
      rw [heq] at ht
      cases ht
      simp only [heq, hc, if_neg hb]
      exact eraseClisLog_posts fds s (t', rest) hI hl ht'
    · rw [heq] at ht
      cases ht
      simp only [heq, hc]
      exact eraseClisLog_posts fds (s.erasePoll fd) (t', rest) (inv_of_other hI rfl rfl) hl ht'

theorem eraseChsLog_posts (hI : Inv s) :
    Runs.run post s.eraseChsLog s.held = .ok { s with chs := s.chs.filter fun _ ch => ch.size ≠ 0 : Server }.held := by
  have hlog : s.eraseChsLog = (s.unusedChs.map Resource.ch).map .release := by
    unfold eraseChsLog
    rw [eraseUnusedChs_ok hI]
    simp only [List.filterMap_map, List.map_map]
    exact congrFun List.filterMap_eq_map _
  have hnodup : (s.unusedChs.map Resource.ch).Nodup :=
    nodup_unusedChs.map fun a b hab => Resource.ch.inj hab
  rw [hlog, post_releases _ _ hnodup fun r hr => ?_]
  · congr 1
    ext r
    rw [Finset.mem_sdiff, List.mem_toFinset]
    cases r with
    | fd fd =>
      rw [fd_mem_held, fd_mem_held]
      simp
    | cli p =>
      rw [cli_mem_held, cli_mem_held]
      simp [clients]
    | ch k =>
      rw [ch_mem_held, ch_mem_held]
      simp only [List.mem_map, Resource.ch.injEq, exists_eq_right, mem_unusedChs, ExtTreeMap.mem_iff_isSome_getElem?,
        Option.isSome_iff_exists]
      constructor
      · rintro ⟨⟨ch, hch⟩, hused⟩
        exact ⟨ch, getElem?_filter_size.mpr ⟨hch, fun h0 => hused ⟨ch, hch, h0⟩⟩⟩
      · rintro ⟨ch, hch⟩
        obtain ⟨hch, hne⟩ := getElem?_filter_size.mp hch
        refine ⟨⟨ch, hch⟩, ?_⟩
        rintro ⟨ch', hch', h0⟩
        rw [hch] at hch'
        cases hch'
        exact hne h0
  · obtain ⟨k, hk, rfl⟩ := List.mem_map.mp hr
    obtain ⟨ch, hch, -⟩ := mem_unusedChs.mp hk
    exact ch_mem_held.mpr (mem_chs.mpr ⟨ch, hch⟩)

theorem held_addNewClient {conn : Conn} (h : acceptContract s conn = true) :
    (s.addNewClient conn).held = insert (.cli conn.addr) (insert (.fd conn.fd) s.held) := by
  ext r
  rw [Finset.mem_insert, Finset.mem_insert]
  cases r with
  | fd fd =>
    rw [fd_mem_held, fd_mem_held, mem_clis_addNewClient]
    simp only [reduceCtorEq, false_or, Resource.fd.injEq]
    exact ⟨fun h => by tauto, fun h => by tauto⟩
  | cli p =>
    rw [cli_mem_held, cli_mem_held]
    simp only [Resource.cli.injEq, reduceCtorEq, false_or, mem_clients_addNewClient h]
    constructor
    · rintro ⟨d, rfl | hd, rfl⟩
      · exact .inl rfl
      · exact .inr ⟨d, hd, rfl⟩
    · rintro (rfl | ⟨d, hd, rfl⟩)
      · exact ⟨_, .inl rfl, rfl⟩
      · exact ⟨d, .inr hd, rfl⟩
  | ch k =>
    rw [ch_mem_held, ch_mem_held]
    simp [addNewClient]

/-- A write to a record. -/
theorem held_put {e : Cli} (hc : s.cliAt x = some c) (haddr : e.addr = c.addr) :
    (s.updCli x fun _ => e).held = s.held := by
  refine held_congr rfl (fun fd => mem_clis_updCli fd) (fun p => ?_) (.refl s)
  simp only [mem_clients_put hc]
  constructor
  · rintro ⟨d, rfl | ⟨hd, -⟩, rfl⟩
    · exact ⟨c, (cliAt_mem hc).1, haddr.symm⟩
    · exact ⟨d, hd, rfl⟩
  · rintro ⟨d, hd, rfl⟩
    by_cases hx : d.addr = x
    · exact ⟨e, .inl rfl, by rw [haddr, hx]; exact (cliAt_mem hc).2⟩
    · exact ⟨d, .inr ⟨hd, hx⟩, rfl⟩

theorem addrs_updCli {f : Cli → Cli} (hf : KeepsAddr f) :
    (∃ c ∈ (s.updCli x f).clients, c.addr = p) ↔ ∃ c ∈ s.clients, c.addr = p := by
  have haddr : ∀ c : Cli, (if c.addr = x then f c else c).addr = c.addr := by
    intro c
    split
    · exact (hf c).1
    · rfl
  rw [clients_updCli]
  constructor
  · rintro ⟨e, he, rfl⟩
    obtain ⟨c, hc, rfl⟩ := List.mem_map.mp he
    exact ⟨c, hc, (haddr c).symm⟩
  · rintro ⟨c, hc, rfl⟩
    exact ⟨_, List.mem_map_of_mem hc, haddr c⟩

/-- A command neither makes nor removes records. -/
theorem Steps.addrs (hI : Inv s) (h : Steps s x ar s') :
    (∃ c ∈ s'.clients, c.addr = p) ↔ ∃ c ∈ s.clients, c.addr = p := by
  have hI' := (h.inv hI).1
  constructor
  · rintro ⟨d', hd', rfl⟩
    obtain ⟨d, hd, hl⟩ := h.earlier_of (cliAt_of_mem hI' hd')
    exact ⟨d, (cliAt_mem hd).1, hl.addr.symm⟩
  · rintro ⟨d, hd, rfl⟩
    obtain ⟨d', hd', hl⟩ := h.later_of (cliAt_of_mem hI hd)
    exact ⟨d', (cliAt_mem hd').1, hl.addr⟩

/-- **What a transition acquires and releases** makes of what the server holds what it holds afterwards. -/
theorem Move.posts (h : Move s phase i s' phase') (hg : Good ⟨s, phase⟩) (hb : Bookkept lfd s) :
    Runs.run post (entries ⟨s, phase⟩ i) s.held = .ok s'.held := by
  have hI : Inv s := hg.inv
  have hl : s.fdForNewClis ∉ s.clis := by
    rw [hb.listener]
    exact hb.closed
  cases h with
  | clis s' hs =>
    unfold eraseUnusedClis at hs
    obtain ⟨r, hr, hs⟩ := bind_ok_iff.mp hs
    cases hs
    exact eraseClisLog_posts _ s r hI hl hr
  | chs s' freed hs =>
    rw [eraseUnusedChs_ok hI] at hs
    cases hs
    exact eraseChsLog_posts hI
  | accept r todo conn _ hconn =>
    obtain ⟨hfree, hlfd, -, hat⟩ := acceptContract_iff.mp hconn
    rw [held_addNewClient hconn]
    have h1 : Resource.fd conn.fd ∉ s.held := fun hin => (fd_mem_held.mp hin).elim hlfd hfree
    have h2 : Resource.cli conn.addr ∉ insert (Resource.fd conn.fd) s.held := by
      intro hin
      rcases Finset.mem_insert.mp hin with he | hin
      · cases he
      · obtain ⟨d, hd, hda⟩ := cli_mem_held.mp hin
        exact addr_ne_of_accept hconn hd hda
    exact Runs.run_cons_ok.mpr ⟨_, post_acquire h1, Runs.run_cons_ok.mpr ⟨_, post_acquire h2, rfl⟩⟩
  | recv fd r todo c chunk s' lines _ hc _ hs =>
    rw [receiveBuf_ok hI (cliAt_of_clis hI hc)] at hs
    cases hs
    exact congrArg Except.ok (held_put (cliAt_of_clis hI hc) (by rfl)).symm
  | send fd r todo c n d s' _ _ hc _ _ hs =>
    rw [sendPreparedResps_eq hI (cliAt_of_clis hI hc)] at hs
    cases hs
    exact congrArg Except.ok (held_put (e := c.sent n) (cliAt_of_clis hI hc) rfl).symm
  | cmd x line lines todo s' hs =>
    obtain ⟨⟨c, hc⟩, -⟩ := hg.author x (line :: lines) todo rfl
    obtain ⟨news, hnews, halloc⟩ := execLine_allocates hI hc hs
    obtain ⟨u, -, rfl, -, -, hsteps⟩ := execLine_run hI hc hs
    have hlog : entries ⟨s, .cmds x (line :: lines) todo⟩ .next = (news.map Resource.ch).map .acquire := by
      unfold entries
      simp only [hnews, List.map_map]
      rfl
    rw [hlog, post_acquires _ _ (halloc.nodup.map fun a b hab => Resource.ch.inj hab) fun r hr => ?_]
    · congr 1
      ext r
      rw [Finset.mem_union, List.mem_toFinset]
      cases r with
      | fd fd =>
        rw [fd_mem_held, fd_mem_held]
        simp only [List.mem_map, reduceCtorEq, and_false, exists_false, or_false]
        exact or_congr (by rw [show (u.note x (splitCmdToArgs line)).fdForNewClis = u.fdForNewClis from rfl,
          hsteps.sameServer.fdForNewClis]) ((hsteps.sameServer.fds fd).symm.trans (mem_clis_updCli fd).symm)
      | cli p =>
        rw [cli_mem_held, cli_mem_held]
        simp only [List.mem_map, reduceCtorEq, and_false, exists_false, or_false]
        exact (hsteps.addrs hI).symm.trans (addrs_updCli (note_keepsAddr _)).symm
      | ch k =>
        rw [ch_mem_held, ch_mem_held, halloc.keys k]
        simp
    · obtain ⟨k, hk, rfl⟩ := List.mem_map.mp hr
      exact fun hin => halloc.fresh k hk (ch_mem_held.mp hin)
  | recvClosed fd r todo c d _ _ _ => exact congrArg Except.ok rfl
  | mark | poll | again | acceptError | recvError | idle | done => rfl

end FtIrc
