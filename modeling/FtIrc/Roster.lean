import FtIrc.Lists
import FtIrc.Transitions

/-!
# Who is told that the roster of a channel changes

`Follows` is what a command owes the members of the channels it changes: whoever stays is told a line that
names the client that has come, gone or been renamed, and a `QUIT` is told to nobody else.  `Heralded` is
what the state before the command has to be like.
-/

namespace FtIrc

open Std Outcome Server

variable {s s' : Server} {x y p : Ptr} {ar : List Str} {c d : Cli} {k m nick line : Str} {ch : Ch}

/-! ## Lines that name a client -/

def BANG : UInt8 := 33

/-- The line bears the nick in its prefix. -/
def Prefixed (nick m : Str) : Prop := ∃ rest, m = nick ++ BANG :: rest ∨ m = COLON :: nick ++ BANG :: rest

/-- The targets of a `KICK` that are kept of its line. -/
def keptTargets (c : Cli) (k list : Str) : Str := list.take (MAX_CMD_LEN - 2 - (kickLine c k [] []).length)

/-- The line announces that the command `ar` kicks `p` from the channel `k`. -/
def KickNames (s : Server) (c : Cli) (ar : List Str) (k : Str) (p : Ptr) (m : Str) : Prop :=
  CmdIs ar "KICK" ∧ m = (kickLine c k (argD ar 2) (kickText ar)).take (MAX_CMD_LEN - 2) ∧
    ∃ u ∈ splitArgToSubargs (keptTargets c k (argD ar 2)), s.getCli u = p

/-- A line with the property has been put into the send buffer of `y`. -/
def Told (s s' : Server) (y : Ptr) (P : Str → Prop) : Prop :=
  ∃ d d' ms, s.cliAt y = some d ∧ s'.cliAt y = some d' ∧ d'.bufToSend = d.bufToSend ++ frames ms ∧
    d'.hist.prepared = d.hist.prepared ++ ms ∧ ∃ m ∈ ms, P (m.take (MAX_CMD_LEN - 2))

/-- `p` has come to the channel, or gone, or has another nick there. -/
def Changed (s s' : Server) (p : Ptr) (k : Str) : Prop :=
  ¬ (On s p k ↔ On s' p k) ∨ (On s p k ∧ On s' p k ∧ nickAt s' p ≠ nickAt s p)

/-- The two are on a channel together. -/
def Shares (s : Server) (x y : Ptr) : Prop := ∃ k, On s x k ∧ On s y k

/-! ## The law -/

/-- What a command of `x` that has led from `s` to `s'` owes the members. -/
structure Follows (s s' : Server) (x : Ptr) (c : Cli) (ar : List Str) : Prop where
  roster : ∀ k p y, Changed s s' p k → On s y k → On s' y k →
    Told s s' y fun m => Prefixed (nickAt s p) m ∨ KickNames s c ar k p m
  quit : CmdIs ar "QUIT" → ∀ y, Told s s' y (fun _ => True) → y = x ∨ Shares s x y

/-- When it does. -/
structure Heralded (s : Server) (x : Ptr) (c : Cli) (ar : List Str) : Prop where
  nick : CmdIs ar "NICK" → NickTaken s ar → ∀ k, ¬ On s x k
  quit : CmdIs ar "QUIT" → ∀ y d, s.cliAt y = some d → y = x ∨ Shares s x y
  /-- while somebody stays, whoever else is kicked is among the targets on the line -/
  kick : CmdIs ar "KICK" → ∀ ch, s.chs[argD ar 1]? = some ch → x ∈ ch.adms →
    ∀ u ∈ splitArgToSubargs (argD ar 2), s.getCli u ∈ ch.clis → s.getCli u ≠ x →
      (∃ y ∈ ch.clis, ∀ v ∈ splitArgToSubargs (argD ar 2), s.getCli v ≠ y) →
      ∃ v ∈ splitArgToSubargs (keptTargets c (argD ar 1) (argD ar 2)), s.getCli v = s.getCli u

/-- The prefix of a short nick is kept. -/
theorem Prefixed.take (hlen : nick.length ≤ 9) (h : Prefixed nick m) :
    Prefixed nick (m.take (MAX_CMD_LEN - 2)) := by
  have hroom : nick.length + 2 ≤ MAX_CMD_LEN - 2 := by
    have : (11 : Nat) ≤ MAX_CMD_LEN - 2 := by decide
    omega
  generalize MAX_CMD_LEN - 2 = n at hroom ⊢
  obtain ⟨rest, rfl | rfl⟩ := h
  · obtain ⟨j, hj⟩ : ∃ j, n - nick.length = j + 1 := ⟨n - nick.length - 1, by omega⟩
    refine ⟨rest.take j, .inl ?_⟩
    rw [List.take_append, List.take_of_length_le (by omega), hj]
    rfl
  · obtain ⟨j, hj⟩ : ∃ j, n - (COLON :: nick).length = j + 1 :=
      ⟨n - (COLON :: nick).length - 1, by rw [List.length_cons]; omega⟩
    refine ⟨rest.take j, .inr ?_⟩
    rw [List.take_append, List.take_of_length_le (by rw [List.length_cons]; omega), hj]
    rfl

/-- The prefixes of the lines that are told to a channel. -/
theorem prefixed_hostPrefix (c : Cli) (w : Str) : Prefixed c.nick (str ":" ++ hostPrefix c ++ w) := by
  refine ⟨c.uName ++ str "@" ++ c.host ++ w, .inr ?_⟩
  unfold hostPrefix
  simp only [List.append_assoc]
  rfl

/-! ## What a command changes -/

/-- A member is registered. -/
theorem registered_of_on (hI : Inv s) (hc : s.cliAt x = some c) (hon : On s x k) : c.registered = true := by
  obtain ⟨ch, hch, hx⟩ := hon
  obtain ⟨d, hd, hreg⟩ := hI.member k ch hch x hx
  rw [hc] at hd
  cases hd
  exact hreg

/-- What a client is told of a line. -/
theorem told_execLine (hI : Inv s) (hc : s.cliAt x = some c) (h : s.execLine x line = .ok s')
    (hd : s.cliAt y = some d) {P : Str → Prop} :
    Told s s' y P ↔ ∃ m, (y, m) ∈ (cmdRun s x c (splitCmdToArgs line)).2 ∧ P (m.take (MAX_CMD_LEN - 2)) := by
  obtain ⟨d', hd', hbuf, hprep⟩ := execLine_inbox hI hc h hd
  constructor
  · rintro ⟨e, e', ms, he, he', -, hms, m, hm, hP⟩
    rw [hd] at he
    rw [hd'] at he'
    cases he
    cases he'
    rw [hprep, List.append_cancel_left_eq] at hms
    rw [← hms] at hm
    exact ⟨m, mem_inbox.mp hm, hP⟩
  · rintro ⟨m, hm, hP⟩
    exact ⟨d, d', _, hd, hd', hbuf, hprep, m, mem_inbox.mpr hm, hP⟩

/-- The effects of a command on who is on a channel. -/
theorem Effect.on {s₀ : Server} (h : Effect s₀ x ar s s') :
    (On s' p k → On s p k ∨ (p = x ∧ CmdIs ar "JOIN" ∧ ¬ PartCmd ar)) ∧
    (On s p k → On s' p k ∨ (p = x ∧ PartCmd ar) ∨ CmdIs ar "KICK") := by
  have hsame : ∀ {t : Server}, t.chs = s.chs → (On t p k → On s p k ∨ (p = x ∧ CmdIs ar "JOIN" ∧ ¬ PartCmd ar)) ∧
      (On s p k → On t p k ∨ (p = x ∧ PartCmd ar) ∨ CmdIs ar "KICK") := fun ht =>
    ⟨fun hon => .inl ((on_congr ht).mp hon), fun hon => .inl ((on_congr ht).mpr hon)⟩
  cases h with
  | cli y c c' _ _ => exact hsame rfl
  | mark c _ _ => exact hsame rfl
  | newCh k' _ hcmd hpart _ _ hfresh =>
    constructor
    · rintro ⟨ch, hch, hm⟩
      rw [getElem?_chs_insert] at hch
      split at hch
      · cases hch
        rcases mem_insert_iff.mp (show p ∈ (∅ : ExtTreeSet Ptr).insert x from hm) with rfl | hm
        · exact .inr ⟨rfl, hcmd, hpart⟩
        · exact absurd hm ExtTreeSet.not_mem_empty
      · exact .inl ⟨ch, hch, hm⟩
    · rintro ⟨ch, hch, hm⟩
      refine .inl ⟨ch, ?_, hm⟩
      rw [getElem?_chs_insert, if_neg, hch]
      rintro rfl
      exact hfresh k (mem_chs.mpr ⟨ch, hch⟩) rfl
  | ch k' ch ch' _ hch heff =>
    have hput : On (s.updCh k' fun _ => ch') p k ↔ if k = k' then p ∈ ch'.clis else On s p k := by
      rw [on_updCh]
      split
      · exact ⟨fun ⟨_, _, hm⟩ => hm, fun hm => ⟨ch, hch, hm⟩⟩
      · rfl
    rw [hput]
    by_cases hk : k = k'
    · subst hk
      rw [if_pos rfl, on_iff hch]
      cases heff with
      | join hcmd hpart _ _ _ =>
        refine ⟨fun hm => ?_, fun hm => .inl (mem_insert_iff.mpr (.inr hm))⟩
        rcases mem_insert_iff.mp hm with rfl | hm
        · exact .inr ⟨rfl, hcmd, hpart⟩
        · exact .inl hm
      | leave y _ hwhy =>
        rw [clis_drop, mem_erase_iff]
        refine ⟨fun hm => .inl hm.2, fun hm => ?_⟩
        rcases hwhy with ⟨hpart, rfl⟩ | ⟨hkick, -⟩
        · by_cases hp : p = y
          · exact .inr (.inl ⟨hp, hpart⟩)
          · exact .inl ⟨hp, hm⟩
        · exact .inr (.inr hkick)
      | topic t _ _ _ => exact ⟨.inl, .inl⟩
      | modes p i t l _ _ => exact ⟨.inl, .inl⟩
      | addAdm y a val _ _ _ _ _ _ _ => exact ⟨.inl, .inl⟩
      | delAdm y _ _ => exact ⟨.inl, .inl⟩
    · rw [if_neg hk]
      exact ⟨.inl, .inl⟩

/-- Who comes to a channel, or leaves it, and by which commands. -/
theorem Steps.on {s₀ : Server} (h : Steps s₀ x ar s) :
    (On s p k → On s₀ p k ∨ (p = x ∧ CmdIs ar "JOIN" ∧ ¬ PartCmd ar)) ∧
    (On s₀ p k → On s p k ∨ (p = x ∧ PartCmd ar) ∨ CmdIs ar "KICK") := by
  induction h with
  | refl => exact ⟨.inl, .inl⟩
  | tail _ heff ih =>
    refine ⟨fun hon => ?_, fun hon => ?_⟩
    · rcases heff.on.1 hon with hon | hwhy
      · exact ih.1 hon
      · exact .inr hwhy
    · rcases ih.2 hon with hon | hwhy
      · exact heff.on.2 hon
      · exact .inr hwhy

end FtIrc
