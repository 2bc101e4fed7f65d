import FtIrc.Delivery

/-!
# What one command can do

`Effect s₀ x ar s s'` lists the elementary changes that executing the command `ar` of the client
`x`, begun in the state `s₀`, can make to a later state `s`: a change of one record (`CliEffect`),
of one channel (`ChEffect`), a new channel, a disconnect mark.  Each constructor carries what the
program has checked before it makes the change.  `Steps` is a sequence of them.

The handlers are shown to make such steps in the modules after this one; here is what every step,
and hence every command, preserves: the invariant (`Steps.inv`), the identity of the records
(`Steps.later`), the absence of CRLF (`Steps.tidy`).
-/

namespace FtIrc

open Std

/-- `x` is a member of the channel `k`. -/
def On (s : Server) (x : Ptr) (k : Str) : Prop := ∃ ch, s.chs[k]? = some ch ∧ x ∈ ch.clis

/-- `x` is an operator of the channel `k`. -/
def Op (s : Server) (x : Ptr) (k : Str) : Prop := ∃ ch, s.chs[k]? = some ch ∧ x ∈ ch.adms

instance (s : Server) (x : Ptr) (k : Str) : Decidable (On s x k) :=
  decidable_of_iff ((s.chs[k]?).any (fun ch => x ∈ ch.clis) = true) (by simp [On, Option.any_eq_true])

instance (s : Server) (x : Ptr) (k : Str) : Decidable (Op s x k) :=
  decidable_of_iff ((s.chs[k]?).any (fun ch => x ∈ ch.adms) = true) (by simp [Op, Option.any_eq_true])

theorem on_iff {s : Server} {x : Ptr} {k : Str} {ch : Ch} (hch : s.chs[k]? = some ch) :
    On s x k ↔ x ∈ ch.clis := by
  simp [On, hch]

theorem op_iff {s : Server} {x : Ptr} {k : Str} {ch : Ch} (hch : s.chs[k]? = some ch) :
    Op s x k ↔ x ∈ ch.adms := by
  simp [Op, hch]

/-- `x` is a registered live client. -/
def IsReg (s : Server) (x : Ptr) : Prop := ∃ c, s.cliAt x = some c ∧ c.registered = true

def CmdIs (ar : List Str) (name : String) : Prop := ar.head? = some (str name)

/-- `PART`, or the form of `JOIN` that leaves all channels. -/
def PartCmd (ar : List Str) : Prop :=
  CmdIs ar "PART" ∨ (CmdIs ar "JOIN" ∧ ar.length = 2 ∧ ar[1]? = some (str "0"))

/-- What `eraseCliFromCh` does to the channel: the last operator is replaced by a member. -/
def Ch.drop (ch : Ch) (p : Ptr) : Ch :=
  let ch := if p ∈ ch.clis then { ch with clis := ch.clis.erase p } else ch
  let ch := if p ∈ ch.adms then { ch with adms := ch.adms.erase p } else ch
  if ch.adms.size = 0 ∧ 0 < ch.clis.size then
    { ch with adms := ch.adms.insert (ch.clis.min?.getD NULL) }
  else ch

/-- A line that the command `ar` of `x` prepares for `y`: a reply to the author, a line of a
registered author, or the line of `QUIT`; it contains no CRLF unless a stored string or an argument
does. -/
structure Got (s₀ : Server) (x : Ptr) (ar : List Str) (y : Ptr) (m : Str) : Prop where
  source : y = x ∨ IsReg s₀ x ∨
    (CmdIs ar "QUIT" ∧ ∃ d ∈ s₀.clients, d.addr = y ∧ ∃ text, m = Server.quitLine d text)
  line : Tidy s₀ → TidyArgs ar → Line m

/-- The changes of a record. -/
inductive CliEffect (s₀ : Server) (x : Ptr) (ar : List Str) (s : Server) : Ptr → Cli → Cli → Prop
  | line (y : Ptr) (c : Cli) (m : Str) : Got s₀ x ar y m →
      CliEffect s₀ x ar s y c (Server.appendResp m c)
  | pass (c : Cli) (a : Str) : CmdIs ar "PASS" → c.passOk = false → ar[1]? = some a → a ≠ [] →
      CliEffect s₀ x ar s x c { c with passOk := true }
  | nick (c : Cli) (a : Str) : CmdIs ar "NICK" → ar[1]? = some a → a ≠ [] → a.length ≤ 9 →
      (∀ b ∈ a, b ∈ Server.nickChars) → (∀ d ∈ s.clients, toLower a ≠ toLower d.nick) →
      CliEffect s₀ x ar s x c { c with nick := a }
  | user (c : Cli) (a r : Str) : CmdIs ar "USER" → ar[1]? = some a → ar[4]? = some r →
      c.uName = [] → CliEffect s₀ x ar s x c { c with uName := a, rName := r }
  | cap (c : Cli) (b : Bool) : CmdIs ar "CAP" →
      CliEffect s₀ x ar s x c { c with capInProgress := b }
  /-- the invitation is used up -/
  | joined (c : Cli) (k : Str) : CmdIs ar "JOIN" →
      CliEffect s₀ x ar s x c { c with invits := c.invits.erase k }
  | invited (y : Ptr) (c : Cli) (k : Str) : CmdIs ar "INVITE" →
      (∃ ch, s₀.chs[k]? = some ch ∧ x ∈ ch.clis ∧ (ch.optI = true → x ∈ ch.adms)) →
      CliEffect s₀ x ar s y c { c with invits := c.invits.insert k }

/-- The changes of the channel `k`. -/
inductive ChEffect (s₀ : Server) (x : Ptr) (ar : List Str) (s : Server) (k : Str) : Ch → Ch → Prop
  | join (ch : Ch) : CmdIs ar "JOIN" → ¬ PartCmd ar → ch.clis.size < ch.limit →
      (ch.optI = true → ∃ c, s.cliAt x = some c ∧ k ∈ c.invits) →
      (ch.pass ≠ [] → ∃ a, ar[2]? = some a ∧ ch.pass ∈ splitArgToSubargs a) →
      ChEffect s₀ x ar s k ch { ch with clis := ch.clis.insert x }
  | leave (ch : Ch) (y : Ptr) : y ∈ ch.clis →
      (PartCmd ar ∧ y = x) ∨ (CmdIs ar "KICK" ∧ Op s₀ x k) →
      ChEffect s₀ x ar s k ch (ch.drop y)
  | topic (ch : Ch) (t : Str) : CmdIs ar "TOPIC" →
      (∃ ch₀, s₀.chs[k]? = some ch₀ ∧ x ∈ ch₀.clis ∧ (x ∈ ch₀.adms ∨ ch₀.optT = false)) →
      t = [] ∨ t ∈ ar → ChEffect s₀ x ar s k ch { ch with topic := t }
  | modes (ch : Ch) (p : Str) (i t : Bool) (l : Nat) : CmdIs ar "MODE" → Op s₀ x k →
      ChEffect s₀ x ar s k ch { ch with pass := p, optI := i, optT := t, limit := l }
  | addAdm (ch : Ch) (y : Ptr) (a val : Str) : CmdIs ar "MODE" → Op s₀ x k → str "+o" ∈ ar →
      ar[3]? = some a → val ∈ splitArgToSubargs a → s.getCli val = y → y ∈ ch.clis →
      ChEffect s₀ x ar s k ch { ch with adms := ch.adms.insert y }
  | delAdm (ch : Ch) (y : Ptr) : CmdIs ar "MODE" → Op s₀ x k →
      ChEffect s₀ x ar s k ch { ch with adms := ch.adms.erase y }

/-- One elementary change of the state. -/
inductive Effect (s₀ : Server) (x : Ptr) (ar : List Str) (s : Server) : Server → Prop
  | cli (y : Ptr) (c c' : Cli) : s.cliAt y = some c → CliEffect s₀ x ar s y c c' →
      Effect s₀ x ar s (s.updCli y fun _ => c')
  | ch (k : Str) (ch ch' : Ch) : IsReg s₀ x → s.chs[k]? = some ch → ChEffect s₀ x ar s k ch ch' →
      Effect s₀ x ar s (s.updCh k fun _ => ch')
  | newCh (k : Str) : IsReg s₀ x → CmdIs ar "JOIN" → ¬ PartCmd ar → ChName k →
      (∃ a, ar[1]? = some a ∧ k ∈ splitArgToSubargs a) → (∀ k' ∈ s.chs, toLower k' ≠ toLower k) →
      Effect s₀ x ar s { s with chs := s.chs.insert k (Ch.new x) }
  | mark (c : Cli) : s.cliAt x = some c → CmdIs ar "QUIT" ∨ CmdIs ar "PASS" →
      Effect s₀ x ar s (s.markToErase c.fd)

/-- A sequence of changes, begun in `s₀`. -/
abbrev Steps (s₀ : Server) (x : Ptr) (ar : List Str) (s : Server) : Prop :=
  Relation.ReflTransGen (Effect s₀ x ar) s₀ s

/-! ## Leaving a channel -/

section Drop

variable {ch : Ch} {p q : Ptr}

/-- The channel without `p`, before a member is promoted. -/
def Ch.without (ch : Ch) (p : Ptr) : Ch :=
  { ch with clis := ch.clis.erase p, adms := ch.adms.erase p }

theorem erase_of_not_mem {t : ExtTreeSet Ptr} (h : p ∉ t) : t.erase p = t := by
  refine ExtTreeSet.ext_mem fun q => ?_
  rw [ExtTreeSet.mem_erase]
  constructor
  · exact fun hq => hq.2
  · intro hq
    refine ⟨fun hc => h ?_, hq⟩
    rw [Std.compare_eq_iff_eq.mp hc]
    exact hq

theorem drop_eq (ch : Ch) (p : Ptr) : ch.drop p =
    if (ch.without p).adms.size = 0 ∧ 0 < (ch.without p).clis.size then
      { ch.without p with
        adms := (ch.without p).adms.insert ((ch.without p).clis.min?.getD NULL) }
    else ch.without p := by
  unfold Ch.drop Ch.without
  by_cases hc : p ∈ ch.clis <;> by_cases ha : p ∈ ch.adms
  · simp only [if_pos hc, if_pos ha]
  · simp only [if_pos hc, if_neg ha, erase_of_not_mem ha]
  · simp only [if_neg hc, if_pos ha, erase_of_not_mem hc]
  · simp only [if_neg hc, if_neg ha, erase_of_not_mem hc, erase_of_not_mem ha]

@[simp] theorem clis_drop : (ch.drop p).clis = ch.clis.erase p := by
  rw [drop_eq]
  split <;> rfl

@[simp] theorem topic_drop : (ch.drop p).topic = ch.topic := by
  rw [drop_eq]
  split <;> rfl

@[simp] theorem modes_drop : (ch.drop p).pass = ch.pass ∧ (ch.drop p).optI = ch.optI ∧
    (ch.drop p).optT = ch.optT ∧ (ch.drop p).limit = ch.limit := by
  rw [drop_eq]
  split <;> exact ⟨rfl, rfl, rfl, rfl⟩

theorem mem_erase_iff {t : ExtTreeSet Ptr} : q ∈ t.erase p ↔ q ≠ p ∧ q ∈ t := by
  rw [ExtTreeSet.mem_erase, ne_eq, Std.compare_eq_iff_eq, ne_comm]

theorem size_eq_zero_iff {t : ExtTreeSet Ptr} : t.size = 0 ↔ ∀ q, q ∉ t :=
  ExtTreeSet.eq_empty_iff_size_eq_zero.symm.trans ExtTreeSet.eq_empty_iff_forall_not_mem

theorem nodup_toList {t : ExtTreeSet Ptr} : t.toList.Nodup := ExtTreeSet.distinct_toList.imp fun h he => h (by
  rw [he]
  exact Std.compare_self)

/-- The operators after a departure: the remaining ones, or the member promoted when none remain
in a channel that is not left empty. -/
theorem adms_drop (ch : Ch) (p : Ptr) :
    (ch.drop p).adms = ch.adms.erase p ∧ ((∃ q ∈ ch.adms, q ≠ p) ∨ ∀ q ∈ ch.clis, q = p) ∨
      (∀ q ∈ ch.adms, q = p) ∧ ∃ y ∈ ch.clis, y ≠ p ∧ (∀ q ∈ ch.clis, q ≠ p → y ≤ q) ∧
        ∀ q, q ∈ (ch.drop p).adms ↔ q = y := by
  rw [drop_eq]
  split
  · rename_i h
    obtain ⟨hadm, hcli⟩ := h
    have hnone : ∀ q ∈ ch.adms, q = p := fun q hq => by
      by_contra hne
      exact size_eq_zero_iff.mp hadm q (mem_erase_iff.mpr ⟨hne, hq⟩)
    refine .inr ⟨hnone, ?_⟩
    cases hmin : (ch.without p).clis.min? with
    | none =>
      rw [ExtTreeSet.min?_eq_none_iff] at hmin
      rw [hmin] at hcli
      exact absurd hcli (by decide)
    | some y =>
      obtain ⟨hy, hmin⟩ := ExtTreeSet.min?_eq_some_iff_mem_and_forall.mp hmin
      obtain ⟨hyp, hy⟩ := mem_erase_iff.mp hy
      refine ⟨y, hy, hyp, fun q hq hqp => ?_, fun q => ?_⟩
      · exact Std.isLE_compare.mp (hmin q (mem_erase_iff.mpr ⟨hqp, hq⟩))
      · show q ∈ (ch.adms.erase p).insert ((some y).getD NULL) ↔ _
        rw [ExtTreeSet.mem_insert, Option.getD_some, Std.compare_eq_iff_eq]
        constructor
        · rintro (h | h)
          · exact h.symm
          · exact absurd h (size_eq_zero_iff.mp hadm q)
        · exact fun h => .inl h.symm
  · rename_i h
    refine .inl ⟨rfl, ?_⟩
    by_contra hno
    push Not at hno
    obtain ⟨hadm, q, hq, hqp⟩ := hno
    refine h ⟨size_eq_zero_iff.mpr fun a ha => ?_, Nat.pos_of_ne_zero fun h0 => ?_⟩
    · obtain ⟨hap, ha⟩ := mem_erase_iff.mp ha
      exact hap (hadm a ha)
    · exact size_eq_zero_iff.mp h0 q (mem_erase_iff.mpr ⟨hqp, hq⟩)

theorem adms_drop_subset (h : ∀ q ∈ ch.adms, q ∈ ch.clis) :
    ∀ q ∈ (ch.drop p).adms, q ∈ (ch.drop p).clis := by
  intro q hq
  rw [clis_drop, mem_erase_iff]
  rcases adms_drop ch p with ⟨hadm, -⟩ | ⟨-, y, hy, hyp, -, hadm⟩
  · rw [hadm, mem_erase_iff] at hq
    exact ⟨hq.1, h q hq.2⟩
  · rw [(hadm q).mp hq]
    exact ⟨hyp, hy⟩

end Drop

end FtIrc
