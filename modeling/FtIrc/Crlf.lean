import FtIrc.Invariant

/-!
# Strings without CRLF

No string that the server stores contains a CRLF (`Tidy`), so no line it prepares does: in every
line the stored strings are separated by nonempty literals without CR and LF (`litOk`), and a CRLF
would have to lie inside one of them.  The `simp` lemmas below reduce a line to its stored strings;
their side condition is decided on the literal.
-/

namespace FtIrc

open Delimited

abbrev CrlfFree (s : Str) : Prop := Free CRLF s

/-- What is prepared for a client: a nonempty string without CRLF. -/
def Line (m : Str) : Prop := CrlfFree m ∧ m ≠ []

/-- The literals that can stand between stored strings: nonempty, without CR and LF.  The test is on
the characters, where it is evaluated fast. -/
def litOk (l : String) : Bool :=
  !l.toList.isEmpty && l.toList.all fun c => c.toNat % 256 != 10 && c.toNat % 256 != 13

theorem crlfFree_nil : CrlfFree [] := by simp [Free, CRLF]

theorem CrlfFree.sub {u v : Str} (h : CrlfFree v) (huv : u <:+: v) : CrlfFree u :=
  fun hu => h (hu.trans huv)

theorem crlfFree_of_not_mem {u : Str} (h : CR ∉ u) : CrlfFree u :=
  fun hu => h (hu.subset (by simp [CRLF]))

/-- A CRLF in a concatenation lies in one of the two parts, or across the cut. -/
theorem crlfFree_append {u v : Str} (hu : CrlfFree u) (hv : CrlfFree v)
    (hcut : [CR] <:+ u → ¬ [LF] <+: v) : CrlfFree (u ++ v) := by
  intro h
  rcases List.infix_append_iff_ne_nil.mp h with h | h | ⟨l₁, l₂, h1, h2, hl, hl₁, hl₂⟩
  · exact hu h
  · exact hv h
  · match l₁, l₂, h1, h2, hl with
    | [a], [b], _, _, hl =>
      simp only [CRLF, List.cons_append, List.nil_append, List.cons.injEq, and_true] at hl
      obtain ⟨rfl, rfl⟩ := hl
      exact hcut hl₁ hl₂
    | [_], _ :: _ :: _, _, _, hl => simp [CRLF] at hl
    | _ :: _ :: _, _ :: _, _, _, hl => simp [CRLF] at hl

section Literals

variable {l : String} {u v : Str}

theorem str_ne_nil (h : litOk l = true) : str l ≠ [] := by
  simp only [litOk, Bool.and_eq_true, Bool.not_eq_true', List.isEmpty_eq_false_iff] at h
  simpa [str] using h.1

theorem not_mem_str (h : litOk l = true) : CR ∉ str l ∧ LF ∉ str l := by
  simp only [litOk, Bool.and_eq_true, List.all_eq_true, bne_iff_ne] at h
  have hchar : ∀ c ∈ l.toList, UInt8.ofNat c.toNat ≠ CR ∧ UInt8.ofNat c.toNat ≠ LF := by
    intro c hc
    obtain ⟨h10, h13⟩ := h.2 c hc
    refine ⟨fun he => h13 ?_, fun he => h10 ?_⟩
    · simpa [CR, LF] using congrArg UInt8.toNat he
    · simpa [CR, LF] using congrArg UInt8.toNat he
  refine ⟨fun hm => ?_, fun hm => ?_⟩ <;>
    obtain ⟨c, hc, he⟩ := List.mem_map.mp hm
  · exact (hchar c hc).1 he
  · exact (hchar c hc).2 he

@[simp] theorem crlfFree_str (h : litOk l = true) : CrlfFree (str l) :=
  crlfFree_of_not_mem (not_mem_str h).1

@[simp] theorem crlfFree_append_str (h : litOk l = true) :
    CrlfFree (u ++ str l) ↔ CrlfFree u := by
  refine ⟨fun huv => huv.sub List.infix_append_left, fun hu => ?_⟩
  refine crlfFree_append hu (crlfFree_str h) fun _ hlf => ?_
  exact (not_mem_str h).2 (hlf.subset (by simp))

@[simp] theorem crlfFree_str_append (h : litOk l = true) :
    CrlfFree (str l ++ v) ↔ CrlfFree v := by
  refine ⟨fun huv => huv.sub List.infix_append_right, fun hv => ?_⟩
  refine crlfFree_append (crlfFree_str h) hv fun hcr _ => ?_
  exact (not_mem_str h).1 (hcr.subset (by simp))

@[simp] theorem crlfFree_append_str_append (h : litOk l = true) :
    CrlfFree (u ++ (str l ++ v)) ↔ CrlfFree u ∧ CrlfFree v := by
  refine ⟨fun huv => ⟨huv.sub List.infix_append_left,
    (crlfFree_str_append h).mp (huv.sub List.infix_append_right)⟩, fun ⟨hu, hv⟩ => ?_⟩
  refine crlfFree_append hu ((crlfFree_str_append h).mpr hv) fun _ hlf => ?_
  have hne := str_ne_nil h
  cases hl : str l with
  | nil => exact hne hl
  | cons b t =>
    rw [hl, List.cons_append, List.cons_prefix_cons] at hlf
    exact (not_mem_str h).2 (by rw [hl, hlf.1]; simp)

@[simp] theorem line_str (h : litOk l = true) : Line (str l) := ⟨crlfFree_str h, str_ne_nil h⟩

@[simp] theorem line_append_str (h : litOk l = true) : Line (u ++ str l) ↔ CrlfFree u := by
  simp [Line, h, str_ne_nil h]

@[simp] theorem line_str_append (h : litOk l = true) : Line (str l ++ v) ↔ CrlfFree v := by
  simp [Line, h, str_ne_nil h]

@[simp] theorem line_append_str_append (h : litOk l = true) :
    Line (u ++ (str l ++ v)) ↔ CrlfFree u ∧ CrlfFree v := by
  simp only [Line, crlfFree_append_str_append h, and_iff_left_iff_imp]
  intro _
  simp [str_ne_nil h]

end Literals

/-- No stored string that ends up in a line contains a CRLF. -/
structure Tidy (s : Server) : Prop where
  cli : ∀ c ∈ s.clients, CrlfFree c.nick ∧ CrlfFree c.uName ∧ CrlfFree c.rName ∧ CrlfFree c.host
  key : ∀ k ∈ s.chs, CrlfFree k
  topic : ∀ (k : Str) (ch : Ch), s.chs[k]? = some ch → CrlfFree ch.topic

def TidyArgs (ar : List Str) : Prop := ∀ a ∈ ar, CrlfFree a

namespace Server

variable {s : Server} {p : Ptr} {c : Cli}

theorem line_rplWelcome (h : CrlfFree c.nick) (hu : CrlfFree c.uName) (hh : CrlfFree c.host) :
    Line (rplWelcome c) := by
  unfold rplWelcome
  simp (disch := decide) [h, hu, hh]

theorem crlfFree_localPrefix (h : CrlfFree c.nick) (hu : CrlfFree c.uName) :
    CrlfFree (localPrefix c) := by
  unfold localPrefix
  simp (disch := decide) [h, hu]

theorem crlfFree_hostPrefix (h : CrlfFree c.nick) (hu : CrlfFree c.uName) (hh : CrlfFree c.host) :
    CrlfFree (hostPrefix c) := by
  unfold hostPrefix
  simp (disch := decide) [h, hu, hh]

end Server

end FtIrc
