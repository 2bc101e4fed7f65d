import FtIrc.Lib.Outcome
import FtIrc.Steps

/-!
# In the middle of a command

`Mid s₀ x ar c s`: the command `ar` of the client `x`, whose record was `c`, was begun in the state
`s₀`, which satisfies the invariant, and has led to `s` so far.  The theorems here are the moves of a
handler: what it can read in such a state, and what each of its writes leads to.
-/

namespace FtIrc

open Std Outcome Server

/-- The faults that the crash law is about. -/
def Fault.isNull (f : Fault) : Prop := f = .nullCh ∨ f = .nullChStored ∨ f = .nullCli

structure Mid (s₀ : Server) (x : Ptr) (ar : List Str) (c : Cli) (s : Server) : Prop where
  inv₀ : Inv s₀
  author₀ : s₀.cliAt x = some c
  steps : Steps s₀ x ar s

variable {s₀ s : Server} {x y : Ptr} {ar : List Str} {c d : Cli} {k m n name : Str} {ch : Ch}
  {mail : Mail}

theorem Mid.refl (hI : Inv s₀) (hx : s₀.cliAt x = some c) : Mid s₀ x ar c s₀ := ⟨hI, hx, .refl⟩

namespace Mid

variable (h : Mid s₀ x ar c s)

include h

/-! ## Reading -/

theorem inv : Inv s := (h.steps.inv h.inv₀).1

theorem isReg (hx : IsReg s₀ x) : IsReg s x := (h.steps.inv h.inv₀).2 hx

theorem author : ∃ d, s.cliAt x = some d ∧ Later s₀ x ar x c d := h.steps.later_of h.author₀

theorem author_nick (hcmd : ¬ CmdIs ar "NICK") : ∃ d, s.cliAt x = some d ∧ c.nick = d.nick := by
  obtain ⟨d, hd, hl⟩ := h.author
  rcases hl.nick with hn | ⟨-, hn⟩
  · exact ⟨d, hd, hn.symm⟩
  · exact absurd hn hcmd

theorem tidy (hT : Tidy s₀) (hA : TidyArgs ar) : Tidy s := h.steps.tidy hT hA

theorem author_tidy (hT : Tidy s₀) :
    CrlfFree c.nick ∧ CrlfFree c.uName ∧ CrlfFree c.rName ∧ CrlfFree c.host :=
  hT.cli c (cliAt_mem h.author₀).1

/-- The author is found on a channel exactly if it is a member. -/
theorem getCliOnCh_author (hcmd : ¬ CmdIs ar "NICK") (hch : s.chs[name]? = some ch) :
    s.getCliOnCh c.nick name = .ok (if x ∈ ch.clis then x else NULL) := by
  obtain ⟨d, hd, hn⟩ := h.author_nick hcmd
  exact getCliOnCh_self h.inv hch hd hn

theorem getAdmOnCh_author (hcmd : ¬ CmdIs ar "NICK") (hch : s.chs[name]? = some ch) :
    s.getAdmOnCh c.nick name = .ok (if x ∈ ch.adms then x else NULL) := by
  obtain ⟨d, hd, hn⟩ := h.author_nick hcmd
  exact getAdmOnCh_self h.inv hch hd hn

theorem author_ne_null : x ≠ NULL := ne_null_of_cliAt h.inv₀ h.author₀

/-! ## Writing -/

theorem effect {s' : Server} (heff : Effect s₀ x ar s s') : Mid s₀ x ar c s' :=
  ⟨h.inv₀, h.author₀, h.steps.tail heff⟩

theorem updCli (hd : s.cliAt y = some d) {f : Cli → Cli} (heff : CliEffect s₀ x ar s y d (f d)) :
    Mid s₀ x ar c (s.updCli y f) := by
  rw [updCli_const h.inv hd]
  exact h.effect (.cli y d (f d) hd heff)

theorem updCh (hx : IsReg s₀ x) (hch : s.chs[k]? = some ch) {g : Ch → Ch}
    (heff : ChEffect s₀ x ar s k ch (g ch)) : Mid s₀ x ar c (s.updCh k g) := by
  rw [updCh_const hch]
  exact h.effect (.ch k ch (g ch) hx hch heff)

/-- Delivering lines to live clients. -/
theorem sendAll (hlive : ∀ e ∈ mail, ∃ d, s.cliAt e.1 = some d)
    (hm : ∀ e ∈ mail, Got s₀ x ar e.1 e.2) : Mid s₀ x ar c (s.sendAll mail) := by
  induction mail generalizing s with
  | nil => exact h
  | cons e mail ih =>
    obtain ⟨d, hd⟩ := hlive e (by simp)
    have hpush : Mid s₀ x ar c (s.push e.1 e.2) :=
      h.updCli hd (.line e.1 d e.2 (hm e (by simp)))
    refine ih hpush (fun e' he' => ?_) fun e' he' => hm e' (by simp [he'])
    obtain ⟨d', hd'⟩ := hlive e' (by simp [he'])
    rw [cliAt_push]
    split
    · exact ⟨_, by rw [hd']; rfl⟩
    · exact ⟨d', hd'⟩

/-- Lines of a registered author. -/
theorem relayAll (hx : IsReg s₀ x) (hlive : ∀ e ∈ mail, ∃ d, s.cliAt e.1 = some d)
    (hm : ∀ e ∈ mail, Tidy s₀ → TidyArgs ar → Line e.2) : Mid s₀ x ar c (s.sendAll mail) :=
  h.sendAll hlive fun e he => ⟨.inr (.inl hx), hm e he⟩

/-- A reply to the author. -/
theorem reply (hm : Tidy s₀ → TidyArgs ar → Line m) :
    s.prepareResp x m = .ok (s.sendAll [(x, m)]) ∧ Mid s₀ x ar c (s.sendAll [(x, m)]) := by
  obtain ⟨d, hd, -⟩ := h.author
  refine ⟨prepareResp_sendAll (deref_of_cliAt h.inv hd), h.sendAll (fun e he => ?_) fun e he => ?_⟩ <;>
    rw [List.mem_singleton.mp he]
  · exact ⟨d, hd⟩
  · exact ⟨.inl rfl, hm⟩

theorem reply_done (hm : Tidy s₀ → TidyArgs ar → Line m) :
    Done (Mid s₀ x ar c) (s.prepareResp x m) := by
  obtain ⟨heq, hmid⟩ := h.reply hm
  exact ⟨_, heq, hmid⟩

/-- A line of a registered author to a live client. -/
theorem relay (hx : IsReg s₀ x) (hd : s.cliAt y = some d) (hm : Tidy s₀ → TidyArgs ar → Line m) :
    s.prepareResp y m = .ok (s.sendAll [(y, m)]) ∧ Mid s₀ x ar c (s.sendAll [(y, m)]) := by
  refine ⟨prepareResp_sendAll (deref_of_cliAt h.inv hd),
    h.relayAll hx (fun e he => ?_) fun e he => ?_⟩ <;> rw [List.mem_singleton.mp he]
  · exact ⟨d, hd⟩
  · exact hm

/-- A broadcast to a channel. -/
theorem broadcast (hx : IsReg s₀ x) (hch : s.chs[k]? = some ch)
    (hm : Tidy s₀ → TidyArgs ar → Line m) :
    s.prepareRespAuthorIncluding (some k) m = .ok (s.sendAll (bcast ch m)) ∧
      Mid s₀ x ar c (s.sendAll (bcast ch m)) := by
  refine ⟨prepareRespAuthorIncluding_ok h.inv hch,
    h.relayAll hx (fun e he => ?_) fun e he => ?_⟩ <;> obtain ⟨hp, hem⟩ := mem_bcast.mp he
  · obtain ⟨d, -, hd, -⟩ := member_live h.inv hch hp
    exact ⟨d, hd⟩
  · rw [hem]
    exact hm

theorem broadcast_done (hx : IsReg s₀ x) (hch : s.chs[k]? = some ch)
    (hm : Tidy s₀ → TidyArgs ar → Line m) :
    Done (Mid s₀ x ar c) (s.prepareRespAuthorIncluding (some k) m) := by
  obtain ⟨heq, hmid⟩ := h.broadcast hx hch hm
  exact ⟨_, heq, hmid⟩

/-- A broadcast to the others on a channel. -/
theorem broadcastOthers (hx : IsReg s₀ x) (hch : s.chs[k]? = some ch)
    (hm : Tidy s₀ → TidyArgs ar → Line m) :
    s.prepareRespExceptAuthor x (some k) m = .ok (s.sendAll (bcastOthers ch x m)) ∧
      Mid s₀ x ar c (s.sendAll (bcastOthers ch x m)) := by
  obtain ⟨a, ha, -⟩ := h.author
  refine ⟨prepareRespExceptAuthor_ok h.inv hch ha,
    h.relayAll hx (fun e he => ?_) fun e he => ?_⟩ <;> obtain ⟨hp, -, hem⟩ := mem_bcastOthers.mp he
  · obtain ⟨d, -, hd, -⟩ := member_live h.inv hch hp
    exact ⟨d, hd⟩
  · rw [hem]
    exact hm

end Mid

/-! ## Reading the arguments -/

theorem arg_ok {n : Nat} {a : Str} (h : ar[n]? = some a) : arg ar n = .ok a := by
  unfold arg
  rw [h]

theorem exists_arg (ar : List Str) (n : Nat) (h : n < ar.length) : ∃ a, ar[n]? = some a :=
  ⟨ar[n], List.getElem?_eq_getElem h⟩

theorem first_ok {a : Str} (h : a ≠ []) : ∃ b, first a = .ok b ∧ a.head? = some b := by
  cases a with
  | nil => exact absurd rfl h
  | cons b a => exact ⟨b, rfl, rfl⟩

/-- A command has one name. -/
theorem CmdIs.unique {l l' : String} (h : CmdIs ar l) (h' : CmdIs ar l') : str l = str l' := by
  unfold CmdIs at h h'
  rw [h] at h'
  exact Option.some.inj h'

theorem isReg_iff (h : s₀.cliAt x = some c) : IsReg s₀ x ↔ c.registered = true := by
  constructor
  · rintro ⟨d, hd, hr⟩
    rw [h] at hd
    cases hd
    exact hr
  · exact fun hr => ⟨c, h, hr⟩

/-- A command of a client that is not registered ends with a reply. -/
theorem Mid.notRegistered (h : Mid s₀ x ar c s) :
    Done (Mid s₀ x ar c) (s.prepareResp x (errNotRegistered c)) :=
  h.reply_done fun hT _ => by
    unfold errNotRegistered
    simp (disch := decide) [(h.author_tidy hT).1]

theorem subarg_free {a : Str} (hA : TidyArgs ar) {i : Nat} (ha : ar[i]? = some a)
    (hn : n ∈ splitArgToSubargs a) : CrlfFree n :=
  (tidyArgs_get hA ha).sub (splitArgToSubargs_part hn).2

end FtIrc
