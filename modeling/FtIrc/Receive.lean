import FtIrc.Split

/-!
# Receiving a stream

`receiveAll` is what `receiveBufAndExecCmds` makes of the chunks of a connection: each is put
behind `bufRecv` and cut by `splitBufToCmds`.

* A stream in which every LF is preceded by CR is cut at its CRLFs, wherever the chunks end
  (`receiveAll_crlf`): the rewrite for `nc` never happens.
* A stream of lines that end with LF alone is cut into its lines exactly if no line is empty and
  every LF ends a chunk (`receiveAll_lf_iff`).
-/

namespace FtIrc

open Delimited

variable {s rest chunk : Str} {chunks lines : List Str}

/-- The commands found in a sequence of chunks, and what `bufRecv` is after them. -/
def receiveAll (bufRecv : Str) : List Str → List Str × Str
  | [] => ([], bufRecv)
  | chunk :: chunks =>
    let r := splitBufToCmds bufRecv (bufRecv ++ chunk)
    let r' := receiveAll r.2 chunks
    (r.1 ++ r'.1, r'.2)

theorem receiveAll_cons (bufRecv chunk : Str) (chunks : List Str) :
    receiveAll bufRecv (chunk :: chunks) =
      ((splitBufToCmds bufRecv (bufRecv ++ chunk)).1 ++
        (receiveAll (splitBufToCmds bufRecv (bufRecv ++ chunk)).2 chunks).1,
        (receiveAll (splitBufToCmds bufRecv (bufRecv ++ chunk)).2 chunks).2) :=
  rfl

/-! ## Lines that end with CRLF -/

/-- Every LF of the stream is preceded by CR. -/
def LfAfterCr (s : Str) : Prop := s.head? ≠ some LF ∧ s.IsChain fun a b => b = LF → a = CR

instance (s : Str) : Decidable (LfAfterCr s) := by
  unfold LfAfterCr
  infer_instance

/-- The rewrite for `nc` does not touch a buffer that continues such a stream. -/
theorem fromNetcat_false {before after : Str} (h : LfAfterCr (before ++ (s ++ after))) :
    fromNetcat s = false := by
  by_contra hn
  simp only [fromNetcat, Bool.not_eq_false, Bool.and_eq_true, decide_eq_true_eq] at hn
  obtain ⟨⟨⟨hlen, hlast⟩, hprev⟩, -⟩ := hn
  have hne : s.dropLast ≠ [] := by
    intro h0
    have := congrArg List.length h0
    simp only [List.length_dropLast, List.length_nil] at this
    omega
  -- the buffer ends with LF, so the byte before it in the stream is CR
  obtain ⟨a, ha⟩ : ∃ a, s.dropLast.getLast? = some a :=
    ⟨_, List.getLast?_eq_some_getLast hne⟩
  have hs : before ++ (s ++ after) = before ++ (s.dropLast ++ (LF :: after)) := by
    conv_lhs => rw [← List.dropLast_append_getLast? _ hlast]
    simp
  have hchain := h.2
  rw [hs] at hchain
  obtain ⟨-, -, hcut⟩ := List.isChain_append.mp (List.isChain_append.mp hchain).2.1
  exact hprev (ha.trans (congrArg some (hcut a ha LF rfl rfl)))

theorem splitBufToCmds_crlf {before after : Str} (hchunk : chunk ≠ [])
    (h : LfAfterCr (before ++ (rest ++ chunk ++ after))) :
    splitBufToCmds rest (rest ++ chunk) = split CRLF (rest ++ chunk) := by
  unfold splitBufToCmds
  rw [if_neg (by simp [hchunk]), fromNetcat_false h]
  rfl

/-- On such a stream the loop is the incremental cut at CRLF. -/
theorem receiveAll_eq_feed : ∀ (chunks : List Str) (before rest : Str), (∀ c ∈ chunks, c ≠ []) →
    LfAfterCr (before ++ (rest ++ chunks.flatten)) → receiveAll rest chunks = feed CRLF rest chunks
  | [], _, _, _, _ => rfl
  | chunk :: chunks, before, rest, hne, h => by
    rw [List.flatten_cons, ← List.append_assoc rest] at h
    obtain ⟨used, hused⟩ := split_rest_suffix crlf_ne_nil (rest ++ chunk)
    have hrec : LfAfterCr (before ++ used ++ ((split CRLF (rest ++ chunk)).2 ++ chunks.flatten)) := by
      rw [← hused] at h
      simpa only [List.append_assoc] using h
    rw [receiveAll_cons, feed_cons, splitBufToCmds_crlf (hne chunk (by simp)) h,
      receiveAll_eq_feed chunks _ _ (fun c hc => hne c (by simp [hc])) hrec]

/-- **Chunk independence**: the commands are the nonempty segments of the stream between its CRLFs,
and `bufRecv` is what follows the last of them, wherever the stream was cut. -/
theorem receiveAll_crlf (chunks : List Str) (hne : ∀ c ∈ chunks, c ≠ [])
    (hcr : LfAfterCr chunks.flatten) :
    (∃ (segs : List Str) (tail : Str), (∀ p ∈ segs, Free CRLF p) ∧ Free CRLF tail ∧
      chunks.flatten = (segs.map (· ++ CRLF)).flatten ++ tail) ∧
    ∀ (segs : List Str) (tail : Str), (∀ p ∈ segs, Free CRLF p) → Free CRLF tail →
      chunks.flatten = (segs.map (· ++ CRLF)).flatten ++ tail →
      receiveAll [] chunks = (segs.filter (· ≠ []), tail) := by
  constructor
  · obtain ⟨segs, tail, hsegs, htail, heq⟩ := exists_pieces crlf_ne_nil chunks.flatten
    exact ⟨segs, tail, fun p hp => (hsegs p hp).2, htail, heq⟩
  · intro segs tail hsegs htail heq
    have hfree : Free CRLF ([] : Str) := by simp [Free, CRLF]
    rw [receiveAll_eq_feed chunks [] [] hne hcr, feed_eq_split crlf_ne_nil hfree, List.nil_append, heq]
    exact split_pieces crlf_ne_nil
      (fun p hp => piece_of_free crlf_ne_nil crlf_unbordered (hsegs p hp)) htail

/-- `PING`, an empty line, and the start of a third, cut between CR and LF. -/
theorem receiveAll_crlf_cut :
    receiveAll [] [str "PI", str "NG\r", str "\n\r\nQ"] = ([str "PING"], str "Q") :=
  (receiveAll_crlf [str "PI", str "NG\r", str "\n\r\nQ"] (by decide) (by decide)).2
    [str "PING", []] (str "Q") (by decide) (by decide) (by decide)

/-! ## Lines that end with LF -/

/-- A buffer without CR is one command if it ends with LF and is more than that; otherwise it is
kept. -/
theorem splitBufToCmds_noCr (hcr : CR ∉ s) (hne : s ≠ []) : splitBufToCmds rest s =
    if 2 ≤ s.length ∧ s.getLast? = some LF then ([s.dropLast], []) else ([], s) := by
  have hfree : Free CRLF s := fun h => hcr (h.subset (by simp [CRLF]))
  have hnone : find CRLF s = none := (find_eq_none_iff crlf_ne_nil).mpr hfree
  have hprev : s.dropLast.getLast? ≠ some CR := fun h =>
    hcr (List.mem_of_mem_dropLast (List.mem_of_getLast? h))
  unfold splitBufToCmds
  rw [if_neg hne]
  by_cases h : 2 ≤ s.length ∧ s.getLast? = some LF
  · have hcmd : s.dropLast ≠ [] := by
      intro h0
      have := congrArg List.length h0
      simp only [List.length_dropLast, List.length_nil] at this
      omega
    have hpiece : ∀ p ∈ [s.dropLast], Piece CRLF p := fun p hp => by
      rw [List.mem_singleton.mp hp]
      exact piece_of_free crlf_ne_nil crlf_unbordered
        fun hs => hcr (List.mem_of_mem_dropLast (hs.subset (by simp [CRLF])))
    have hnil : Free CRLF ([] : Str) := by simp [Free, CRLF]
    have hsplit := split_pieces crlf_ne_nil hpiece hnil
    have hfire : fromNetcat s = true := by simp [fromNetcat, h, hprev, hnone]
    rw [if_pos h, hfire]
    simpa [CRLF, hcmd] using hsplit
  · have hquiet : fromNetcat s = false := by
      simp only [fromNetcat, Bool.and_eq_false_imp, Bool.and_eq_true, decide_eq_true_eq]
      exact fun hf => absurd hf.1 h
    rw [if_neg h, hquiet]
    exact split_none hnone

/-- No byte is lost: the commands, each with its LF, and the rest are what was received. -/
theorem receiveAll_noCr : ∀ (chunks : List Str) (rest : Str), CR ∉ rest →
    (∀ c ∈ chunks, c ≠ [] ∧ CR ∉ c) →
    ((receiveAll rest chunks).1.map (· ++ [LF])).flatten ++ (receiveAll rest chunks).2 =
      rest ++ chunks.flatten
  | [], rest, _, _ => by simp [receiveAll]
  | chunk :: chunks, rest, hrest, hchunks => by
    obtain ⟨hne, hcr⟩ := hchunks chunk (by simp)
    have hcr' : CR ∉ rest ++ chunk := by simp [hrest, hcr]
    have ih := fun rest h => receiveAll_noCr chunks rest h fun c hc => hchunks c (by simp [hc])
    rw [receiveAll_cons, splitBufToCmds_noCr hcr' (by simp [hne]), List.flatten_cons,
      ← List.append_assoc rest]
    split
    · rename_i h
      conv_rhs => rw [← List.dropLast_append_getLast? _ h.2]
      simpa using ih [] (by simp)
    · simpa using ih (rest ++ chunk) hcr'

/-- The chunks end where the lines end: then each flush is one line. -/
theorem receiveAll_lines : ∀ (chunks : List Str) (rest : Str) (lines : List Str), LF ∉ rest →
    CR ∉ rest → (∀ c ∈ chunks, c ≠ [] ∧ CR ∉ c ∧ LF ∉ c.dropLast) →
    (∀ l ∈ lines, l ≠ [] ∧ LF ∉ l) → rest ++ chunks.flatten = (lines.map (· ++ [LF])).flatten →
    receiveAll rest chunks = (lines, [])
  | [], rest, lines, hlf, _, _, _, heq => by
    cases lines with
    | nil =>
      rw [List.flatten_nil, List.append_nil] at heq
      rw [heq]
      rfl
    | cons l ls =>
      rw [List.flatten_nil, List.append_nil] at heq
      exact absurd (heq ▸ by simp) hlf
  | chunk :: chunks, rest, lines, hlf, hcr, hchunks, hlines, heq => by
    obtain ⟨hne, hcrc, hlast⟩ := hchunks chunk (by simp)
    have hcr' : CR ∉ rest ++ chunk := by simp [hcr, hcrc]
    have hrest := fun rest lines => receiveAll_lines chunks rest lines
    have hchunks' : ∀ c ∈ chunks, c ≠ [] ∧ CR ∉ c ∧ LF ∉ c.dropLast := fun c hc =>
      hchunks c (by simp [hc])
    rw [receiveAll_cons, splitBufToCmds_noCr hcr' (by simp [hne])]
    by_cases hl : chunk.getLast? = some LF
    · -- the chunk ends a line
      have hchunk := List.dropLast_append_getLast? _ hl
      have hbuf : rest ++ chunk.dropLast ++ [LF] = rest ++ chunk := by rw [List.append_assoc, hchunk]
      cases lines with
      | nil =>
        rw [List.flatten_cons, ← hchunk] at heq
        simp at heq
      | cons l ls =>
        obtain ⟨hl0, hllf⟩ := hlines l (by simp)
        have hcut : rest ++ chunk.dropLast ++ LF :: chunks.flatten =
            l ++ LF :: (ls.map (· ++ [LF])).flatten := by
          rw [List.flatten_cons, ← List.append_assoc, ← hbuf] at heq
          simpa using heq
        obtain ⟨hline, htail⟩ := append_cons_inj (by simp [hlf, hlast]) hllf hcut
        have hlen : 2 ≤ (l ++ [LF]).length := by
          have := List.length_pos_iff.mpr hl0
          simp only [List.length_append, List.length_singleton]
          omega
        rw [← hbuf, hline, if_pos ⟨hlen, List.getLast?_concat⟩, List.dropLast_concat,
          hrest [] ls (by simp) (by simp) hchunks' (fun l h => hlines l (by simp [h])) htail]
        rfl
    · have hlf' : LF ∉ rest ++ chunk := by
        rw [List.mem_append, not_or]
        refine ⟨hlf, fun hm => ?_⟩
        rw [← List.dropLast_concat_getLast hne, List.mem_append, List.mem_singleton] at hm
        rcases hm with h | h
        · exact hlast h
        · exact hl (by rw [List.getLast?_eq_some_getLast hne, ← h])
      rw [if_neg, hrest (rest ++ chunk) lines hlf' hcr' hchunks' hlines]
      · rfl
      · rw [List.append_assoc, ← heq, List.flatten_cons]
      · rintro ⟨-, h⟩
        exact hlf' (List.mem_of_getLast? h)

/-- If no command contains an LF and nothing is left, every LF ended its chunk. -/
theorem lf_ends_chunk : ∀ (chunks : List Str) (rest : Str), CR ∉ rest →
    (∀ c ∈ chunks, c ≠ [] ∧ CR ∉ c) → (∀ l ∈ (receiveAll rest chunks).1, LF ∉ l) →
    (receiveAll rest chunks).2 = [] → LF ∉ rest ∧ ∀ c ∈ chunks, LF ∉ c.dropLast
  | [], rest, _, _, _, hrest => by
    have h0 : rest = [] := hrest
    simp [h0]
  | chunk :: chunks, rest, hcr, hchunks, hcmds, hrest => by
    obtain ⟨hne, hcrc⟩ := hchunks chunk (by simp)
    have hcr' : CR ∉ rest ++ chunk := by simp [hcr, hcrc]
    have ih := fun rest h => lf_ends_chunk chunks rest h fun c hc => hchunks c (by simp [hc])
    rw [receiveAll_cons, splitBufToCmds_noCr hcr' (by simp [hne])] at hcmds hrest
    split at hcmds
    · rename_i h
      rw [if_pos h] at hrest
      have hcmd : LF ∉ (rest ++ chunk).dropLast := hcmds _ (by simp)
      rw [List.dropLast_append_of_ne_nil hne, List.mem_append, not_or] at hcmd
      obtain ⟨-, hall⟩ := ih [] (by simp) (fun l hl => hcmds l (by simp [hl])) hrest
      exact ⟨hcmd.1, List.forall_mem_cons.mpr ⟨hcmd.2, hall⟩⟩
    · rename_i h
      rw [if_neg h] at hrest
      obtain ⟨hbuf, hall⟩ := ih (rest ++ chunk) hcr' (by simpa using hcmds) hrest
      rw [List.mem_append, not_or] at hbuf
      exact ⟨hbuf.1, List.forall_mem_cons.mpr ⟨fun hm => hbuf.2 (List.mem_of_mem_dropLast hm), hall⟩⟩

theorem count_lf (h : ∀ l ∈ lines, LF ∉ l) :
    ((lines.map (· ++ [LF])).flatten).count LF = lines.length := by
  induction lines with
  | nil => rfl
  | cons l ls ih =>
    have hl : l.count LF = 0 := List.count_eq_zero.mpr (h l (by simp))
    rw [List.map_cons, List.flatten_cons, List.count_append, List.count_append, hl,
      ih fun l hl => h l (by simp [hl]), List.length_cons]
    simp
    omega

/-- **A stream of lines that end with LF alone is cut into its nonempty lines exactly if no line is
empty and every LF ends a chunk.** -/
theorem receiveAll_lf_iff (lines chunks : List Str) (hlines : ∀ l ∈ lines, LF ∉ l ∧ CR ∉ l)
    (hne : ∀ c ∈ chunks, c ≠ []) (hstream : chunks.flatten = (lines.map (· ++ [LF])).flatten) :
    receiveAll [] chunks = (lines.filter (· ≠ []), []) ↔
      (∀ l ∈ lines, l ≠ []) ∧ ∀ c ∈ chunks, LF ∉ c.dropLast := by
  have hcr : ∀ c ∈ chunks, CR ∉ c := by
    intro c hc hm
    have hflat : CR ∈ (lines.map (· ++ [LF])).flatten := by
      rw [← hstream]
      exact List.mem_flatten_of_mem hc hm
    obtain ⟨_, hmap, hm⟩ := List.mem_flatten.mp hflat
    obtain ⟨l, hl, rfl⟩ := List.mem_map.mp hmap
    rcases List.mem_append.mp hm with hm | hm
    · exact (hlines l hl).2 hm
    · exact absurd hm (by decide)
  constructor
  · intro h
    have hbytes := receiveAll_noCr chunks [] (by simp) fun c hc => ⟨hne c hc, hcr c hc⟩
    rw [h, List.append_nil, List.nil_append, hstream] at hbytes
    have hcount := congrArg (List.count LF) hbytes
    rw [count_lf fun l hl => (hlines l (List.mem_of_mem_filter hl)).1,
      count_lf fun l hl => (hlines l hl).1, List.length_filter_eq_length_iff] at hcount
    refine ⟨fun l hl => by simpa using hcount l hl, ?_⟩
    refine (lf_ends_chunk chunks [] (by simp) (fun c hc => ⟨hne c hc, hcr c hc⟩) ?_ (by rw [h])).2
    rw [h]
    exact fun l hl => (hlines l (List.mem_of_mem_filter hl)).1
  · rintro ⟨hnonempty, hlast⟩
    have hkeep : lines.filter (· ≠ []) = lines :=
      List.filter_eq_self.mpr fun l hl => by simpa using hnonempty l hl
    rw [hkeep]
    exact receiveAll_lines chunks [] lines (by simp) (by simp)
      (fun c hc => ⟨hne c hc, hcr c hc, hlast c hc⟩) (fun l hl => ⟨hnonempty l hl, (hlines l hl).1⟩)
      (by rw [List.nil_append, hstream])

/-- A line in two chunks, and another in one. -/
theorem receiveAll_lf_two :
    receiveAll [] [str "NI", str "CK a\n", str "PING\n"] = ([str "NICK a", str "PING"], []) :=
  (receiveAll_lf_iff [str "NICK a", str "PING"] [str "NI", str "CK a\n", str "PING\n"] (by decide)
    (by decide) (by decide)).mpr (by decide)

/-- Two lines in one chunk become one command. -/
theorem receiveAll_lf_merged :
    receiveAll [] [str "NICK a\nPING\n"] = ([str "NICK a\nPING"], []) ∧
      ¬ ∀ lines chunks : List Str, (∀ l ∈ lines, LF ∉ l ∧ CR ∉ l) → (∀ c ∈ chunks, c ≠ []) →
        chunks.flatten = (lines.map (· ++ [LF])).flatten →
        receiveAll [] chunks = (lines.filter (· ≠ []), []) := by
  have hmerged : receiveAll [] [str "NICK a\nPING\n"] = ([str "NICK a\nPING"], []) := by decide
  refine ⟨hmerged, fun hall => ?_⟩
  have h := hall [str "NICK a", str "PING"] [str "NICK a\nPING\n"] (by decide) (by decide) (by decide)
  rw [hmerged] at h
  exact absurd h (by decide)

end FtIrc
