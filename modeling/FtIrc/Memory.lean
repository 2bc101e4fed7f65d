import FtIrc.Loop

/-!
# Reading and writing the records

What the accessors of `State.lean` return after each kind of write.  A write through a `Cli*`
touches one record and no channel; a write through a `Ch*` touches one channel and no record.
Records keep their address for life, so every write to a record is by a function that does
(`KeepsAddr`).
-/

namespace FtIrc

open Std

/-- A write to a record leaves it where it is. -/
def KeepsAddr (f : Cli → Cli) : Prop := ∀ c, (f c).addr = c.addr ∧ (f c).fd = c.fd

/-- A search does not see a change that the predicate does not see. -/
theorem find?_map_of_forall {α : Type} {g : α → α} {P : α → Bool} :
    ∀ {l : List α}, (∀ a ∈ l, P (g a) = P a) → (l.map g).find? P = (l.find? P).map g
  | [], _ => rfl
  | a :: l, h => by
    have ih := find?_map_of_forall (l := l) fun b hb => h b (by simp [hb])
    rw [List.map_cons, List.find?_cons, List.find?_cons, h a (by simp)]
    cases P a
    · exact ih
    · rfl

namespace Server

variable {s : Server} {p q : Ptr} {f : Cli → Cli} {c : Cli} {k k' : Str}

/-! ## Records -/

theorem mem_clients : c ∈ s.clients ↔ ∃ fd : Nat, s.clis[fd]? = some c := by
  simp only [clients, List.mem_map, Prod.exists, exists_eq_right]
  exact exists_congr fun fd => ExtTreeMap.mem_toList_iff_getElem?_eq_some

theorem cliAt_mem (h : s.cliAt p = some c) : c ∈ s.clients ∧ c.addr = p :=
  ⟨List.mem_of_find?_eq_some h, by simpa using List.find?_some h⟩

/-- The object at an address is alive and is `c`. -/
theorem deref_ok : s.deref p = .ok c ↔ p ≠ NULL ∧ s.cliAt p = some c := by
  unfold deref
  split
  · rename_i h; simp [h]
  · rename_i h
    cases s.cliAt p <;> simp [h]

@[simp] theorem clients_updCli :
    (s.updCli p f).clients = s.clients.map fun c => if c.addr = p then f c else c := by
  simp only [clients, updCli, ExtTreeMap.toList_map, List.map_map]
  rfl

theorem getElem?_clis_updCli (fd : Nat) :
    (s.updCli p f).clis[fd]? = (s.clis[fd]?).map fun c => if c.addr = p then f c else c := by
  simp [updCli, ExtTreeMap.getElem?_map]

@[simp] theorem mem_clis_updCli (fd : Nat) : fd ∈ (s.updCli p f).clis ↔ fd ∈ s.clis := by
  simp [updCli]

theorem cliAt_updCli_of_mem (hf : ∀ c ∈ s.clients, c.addr = p → (f c).addr = c.addr) :
    (s.updCli p f).cliAt q = if q = p then (s.cliAt q).map f else s.cliAt q := by
  have hfind : (s.updCli p f).cliAt q =
      (s.cliAt q).map fun c => if c.addr = p then f c else c := by
    unfold cliAt
    rw [clients_updCli]
    refine find?_map_of_forall fun c hc => ?_
    by_cases h : c.addr = p
    · rw [if_pos h, hf c hc h]
    · rw [if_neg h]
  rw [hfind]
  cases h : s.cliAt q with
  | none => split <;> rfl
  | some c =>
    have haddr := (cliAt_mem h).2
    by_cases hq : q = p
    · rw [if_pos hq, Option.map_some, if_pos (by rw [haddr, hq]), Option.map_some]
    · rw [if_neg hq, Option.map_some, if_neg (by rw [haddr]; exact hq)]

theorem cliAt_updCli (hf : KeepsAddr f) :
    (s.updCli p f).cliAt q = if q = p then (s.cliAt q).map f else s.cliAt q :=
  cliAt_updCli_of_mem fun c _ _ => (hf c).1

@[simp] theorem chs_updCli : (s.updCli p f).chs = s.chs := rfl

@[simp] theorem polls_updCli : (s.updCli p f).polls = s.polls := rfl

@[simp] theorem fdsToErase_updCli : (s.updCli p f).fdsToErase = s.fdsToErase := rfl

@[simp] theorem pass_updCli : (s.updCli p f).pass = s.pass := rfl

@[simp] theorem fdForNewClis_updCli : (s.updCli p f).fdForNewClis = s.fdForNewClis := rfl

/-- A write that keeps the nick does not change who answers to a nick. -/
theorem getCli_updCli_of_mem
    (hf : ∀ c ∈ s.clients, c.addr = p → (f c).addr = c.addr ∧ (f c).nick = c.nick) (nick : Str) :
    (s.updCli p f).getCli nick = s.getCli nick := by
  have hkeep : ∀ c ∈ s.clients, (if c.addr = p then f c else c).addr = c.addr ∧
      (if c.addr = p then f c else c).nick = c.nick := by
    intro c hc
    split
    · rename_i h; exact hf c hc h
    · exact ⟨rfl, rfl⟩
  unfold getCli
  rw [clients_updCli, find?_map_of_forall fun c hc => by rw [(hkeep c hc).2]]
  cases hfind : s.clients.find? fun c => decide (toLower c.nick = toLower nick) with
  | none => rfl
  | some c => exact (hkeep c (List.mem_of_find?_eq_some hfind)).1

theorem getCli_updCli (hf : KeepsAddr f) (hn : ∀ c, (f c).nick = c.nick) (nick : Str) :
    (s.updCli p f).getCli nick = s.getCli nick :=
  getCli_updCli_of_mem (fun c _ _ => ⟨(hf c).1, hn c⟩) nick

/-! ## Channels -/

theorem mem_chs : k ∈ s.chs ↔ ∃ ch, s.chs[k]? = some ch := by
  rw [ExtTreeMap.mem_iff_isSome_getElem?, Option.isSome_iff_exists]

@[simp] theorem clis_updCh (g : Ch → Ch) : (s.updCh k g).clis = s.clis := rfl

@[simp] theorem clients_updCh (g : Ch → Ch) : (s.updCh k g).clients = s.clients := rfl

@[simp] theorem cliAt_updCh (g : Ch → Ch) : (s.updCh k g).cliAt p = s.cliAt p := rfl

@[simp] theorem deref_updCh (g : Ch → Ch) : (s.updCh k g).deref p = s.deref p := rfl

@[simp] theorem getCli_updCh (g : Ch → Ch) (nick : Str) : (s.updCh k g).getCli nick = s.getCli nick :=
  rfl

@[simp] theorem mem_chs_updCh (g : Ch → Ch) : k' ∈ (s.updCh k g).chs ↔ k' ∈ s.chs :=
  ExtTreeMap.mem_modify

theorem getElem?_chs_updCh (g : Ch → Ch) :
    (s.updCh k g).chs[k']? = if k' = k then (s.chs[k']?).map g else s.chs[k']? := by
  simp only [updCh, ExtTreeMap.getElem?_modify, Std.compare_eq_iff_eq]
  by_cases h : k = k'
  · subst h; simp
  · rw [if_neg h, if_neg (fun e => h e.symm)]

@[simp] theorem keys_chs_updCh (g : Ch → Ch) : (s.updCh k g).chs.keys = s.chs.keys := by
  refine List.Perm.eq_of_pairwise (fun a b _ _ hab hba => ?_) ExtTreeMap.ordered_keys
    ExtTreeMap.ordered_keys ((List.perm_ext_iff_of_nodup ExtTreeMap.nodup_keys
      ExtTreeMap.nodup_keys).mpr fun a => ?_)
  · rw [OrientedCmp.gt_of_lt hab] at hba
    cases hba
  · rw [ExtTreeMap.mem_keys, ExtTreeMap.mem_keys, mem_chs_updCh]

@[simp] theorem getCh_updCh (g : Ch → Ch) (chName : Str) :
    (s.updCh k g).getCh chName = s.getCh chName := by
  simp [getCh]

@[simp] theorem getCh_updCli (chName : Str) : (s.updCli p f).getCh chName = s.getCh chName := rfl

@[simp] theorem derefCh_updCli (r : ChRef) : (s.updCli p f).derefCh r = s.derefCh r := rfl

@[simp] theorem chsAt_updCli : (s.updCli p f).chsAt k = s.chsAt k := rfl

@[simp] theorem nbChannels_updCli : (s.updCli p f).nbChannels q = s.nbChannels q := rfl

/-! ## Marks -/

@[simp] theorem clis_markToErase (fd : Nat) : (s.markToErase fd).clis = s.clis := rfl

@[simp] theorem clients_markToErase (fd : Nat) : (s.markToErase fd).clients = s.clients := rfl

@[simp] theorem chs_markToErase (fd : Nat) : (s.markToErase fd).chs = s.chs := rfl

@[simp] theorem cliAt_markToErase (fd : Nat) : (s.markToErase fd).cliAt p = s.cliAt p := rfl

@[simp] theorem deref_markToErase (fd : Nat) : (s.markToErase fd).deref p = s.deref p := rfl

/-! ## Replies -/

theorem appendResp_keepsAddr (msg : Str) : KeepsAddr (appendResp msg) := fun _ => ⟨rfl, rfl⟩

@[simp] theorem appendResp_nick (msg : Str) (c : Cli) : (appendResp msg c).nick = c.nick := rfl

@[simp] theorem appendResp_registered (msg : Str) (c : Cli) :
    (appendResp msg c).registered = c.registered := rfl

theorem cliAt_push (msg : Str) :
    (s.push p msg).cliAt q = if q = p then (s.cliAt q).map (appendResp msg) else s.cliAt q :=
  cliAt_updCli (appendResp_keepsAddr msg)

@[simp] theorem chs_push (msg : Str) : (s.push p msg).chs = s.chs := rfl

@[simp] theorem getCh_push (msg chName : Str) : (s.push p msg).getCh chName = s.getCh chName := rfl

@[simp] theorem derefCh_push (msg : Str) (r : ChRef) : (s.push p msg).derefCh r = s.derefCh r := rfl

@[simp] theorem chsAt_push (msg : Str) : (s.push p msg).chsAt k = s.chsAt k := rfl

@[simp] theorem getCli_push (msg nick : Str) : (s.push p msg).getCli nick = s.getCli nick :=
  getCli_updCli (appendResp_keepsAddr msg) (fun _ => rfl) nick

@[simp] theorem nbChannels_push (msg : Str) : (s.push p msg).nbChannels q = s.nbChannels q := rfl

/-- `prepareResp` to a live client succeeds. -/
theorem prepareResp_ok (msg : Str) (h : s.deref p = .ok c) :
    s.prepareResp p msg = .ok (s.push p msg) := by
  unfold prepareResp
  rw [h]
  rfl

end Server

end FtIrc
