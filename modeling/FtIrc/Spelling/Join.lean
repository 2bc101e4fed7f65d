import FtIrc.Meaning.Join
import FtIrc.Spelling.Outcome

/-!
# Two spellings of a JOIN

The names in front of the respelled one are treated alike (`joinLoop_append`).  Either the loop ends
among them, or the respelled name is reached and has to be the key.
-/

namespace FtIrc

open Std Outcome Server

variable {s t : Server} {x : Ptr} {ar ar' : List Str} {c : Cli} {a a' n n' : Str}
  {L R passes : List Str}

/-! ## The loop -/

theorem joinLoop_stop (h : MAX_CHS_PER_USER - 1 < s.nbChannels x) (name : Str) (names : List Str) :
    joinLoop x c a (name :: names) passes s = s.prepareResp x (tooManyChannels a) := by
  unfold joinLoop
  exact if_pos h

/-- One name: what is done for it depends neither on the argument nor on the names that follow. -/
theorem joinLoop_cons (h : ¬ MAX_CHS_PER_USER - 1 < s.nbChannels x) (name : Str) (passes : List Str) :
    ∃ (r : Except Fault Server) (passes' : List Str), ∀ a names,
      joinLoop x c a (name :: names) passes s = r >>= joinLoop x c a names passes' := by
  unfold joinLoop
  rw [badChName_ok]
  by_cases hbad : badName name = true
  · refine ⟨s.prepareResp x (str "403 " ++ name ++ str " :No such channel"), passes,
      fun a names => ?_⟩
    rw [if_neg h]
    exact if_pos hbad
  · cases hp : s.getCliOnCh c.nick name with
    | error e =>
      refine ⟨.error e, passes, fun a names => ?_⟩
      rw [if_neg h]
      exact if_neg hbad
    | ok p =>
      by_cases hon : p ≠ NULL
      · refine ⟨s.prepareResp x (str ":you are already on channel " ++ name), passes,
          fun a names => ?_⟩
        rw [if_neg h]
        exact (if_neg hbad).trans (if_pos hon)
      · refine ⟨(if s.getCh name = none then { s with chs := s.chs.insert name (Ch.new x) }
          else s).joinCh x c name (passes.headD []), passes.tail, fun a names => ?_⟩
        rw [if_neg h]
        exact (if_neg hbad).trans (if_neg hon)

/-- The names `L` are treated before, and whatever follows them: the loop fails or ends among them,
or it goes on with the rest. -/
theorem joinLoop_append (x : Ptr) (c : Cli) : ∀ (L passes : List Str) (s : Server),
    (∃ e, ∀ a R, joinLoop x c a (L ++ R) passes s = .error e) ∨
    (∃ t : Server, ∀ a R, joinLoop x c a (L ++ R) passes s =
      t.prepareResp x (tooManyChannels a)) ∨
    ∃ t passes', ∀ a R, joinLoop x c a (L ++ R) passes s = joinLoop x c a R passes' t
  | [], passes, s => .inr (.inr ⟨s, passes, fun _ _ => rfl⟩)
  | name :: L, passes, s => by
    by_cases hmany : MAX_CHS_PER_USER - 1 < s.nbChannels x
    · exact .inr (.inl ⟨s, fun a R => joinLoop_stop hmany name (L ++ R)⟩)
    · obtain ⟨r, passes₁, hr⟩ := joinLoop_cons (c := c) hmany name passes
      cases r with
      | error e => exact .inl ⟨e, fun a R => hr a (L ++ R)⟩
      | ok s₁ =>
        have hnext : ∀ a R, joinLoop x c a (name :: L ++ R) passes s =
            joinLoop x c a (L ++ R) passes₁ s₁ := fun a R => hr a (L ++ R)
        simp only [hnext]
        exact joinLoop_append x c L passes₁ s₁

/-- A name that is reached and not spelled as its key fails. -/
theorem joinLoop_misspelt (h : ¬ MAX_CHS_PER_USER - 1 < s.nbChannels x) (hbad : badName n = false)
    (hget : s.getCh n ≠ none) (hn : n ∉ s.chs) (a : Str) (names passes : List Str) :
    ∀ u, joinLoop x c a (n :: names) passes s ≠ .ok u := by
  intro u hok
  unfold joinLoop at hok
  rw [if_neg h, badChName_ok, hbad] at hok
  change (s.getCliOnCh c.nick n >>= _) = _ at hok
  rw [getCliOnCh_misspelt hget hn] at hok
  cases hok

/-- A loop that adds nothing has checked the spelling of every name. -/
theorem spelled_of_joins_nil (hfew : ¬ MAX_CHS_PER_USER - 1 < s.nbChannels x) :
    ∀ names passes : List Str, JoinSafe s x c [] names passes → joins s x c [] names passes = [] →
    ∀ name ∈ names, badName name = false → ∀ k ∈ s.chs, toLower k = toLower name → k = name
  | [], _, _, _, name, hn => absurd hn List.not_mem_nil
  | first :: names, passes, hsafe, hnil, name, hn => by
    intro hbad k hk hlow
    have hfew' : ¬ MAX_CHS_PER_USER - 1 < s.nbChannels x + ([] : List Str).length := hfew
    have hrest := fun passes hs hj => spelled_of_joins_nil hfew names passes hs hj name
    unfold JoinSafe at hsafe
    unfold joins at hnil
    rw [if_neg hfew'] at hsafe hnil
    by_cases hb : badName first = true
    · rw [if_pos hb] at hsafe
      rw [if_pos (.inl hb)] at hnil
      rcases List.mem_cons.mp hn with rfl | hn
      · rw [hb] at hbad
        cases hbad
      · exact hrest passes hsafe hnil hn hbad k hk hlow
    · rw [if_neg hb] at hsafe
      obtain ⟨hspelt, hsafe⟩ := hsafe
      rcases List.mem_cons.mp hn with rfl | hn
      · exact hspelt k (by simp [hk]) hlow
      · by_cases hon : On s x first
        · rw [if_pos (.inl hon)] at hsafe
          rw [if_pos (.inr (.inl hon))] at hnil
          exact hrest passes hsafe hnil hn hbad k hk hlow
        · have hno : ¬ (On s x first ∨ first ∈ ([] : List Str)) := by simp [hon]
          rw [if_neg hno] at hsafe
          rw [if_neg fun h => hno (h.resolve_left hb)] at hnil
          by_cases hadm : Admitted s c first (passes.headD [])
          · rw [if_pos hadm] at hnil
            have hmem : first ∈ joins s x c [first] names passes.tail :=
              subset_joins names passes.tail [first] first (List.mem_singleton_self first)
            rw [hnil] at hmem
            exact absurd hmem List.not_mem_nil
          · rw [if_neg hadm] at hsafe hnil
            exact hrest passes.tail hsafe hnil hn hbad k hk hlow

theorem not_zero (h : HASH ∈ a) : ¬ (ar.length = 2 ∧ a = str "0") := by
  rintro ⟨-, rfl⟩
  exact absurd h (by decide)

/-- A loop over a list that is not empty ends with `405` at once if the author is on too many
channels. -/
theorem joinLoop_middle (h : MAX_CHS_PER_USER - 1 < s.nbChannels x) :
    joinLoop x c a (L ++ n :: R) passes s = s.prepareResp x (tooManyChannels a) := by
  cases L with
  | nil => exact joinLoop_stop h n R
  | cons m L => exact joinLoop_stop h m (L ++ n :: R)

/-- A `JOIN` of a list that is refused, or of a client on too many channels, is one reply. -/
theorem execJoin_reply (hI : Inv s) (hc : s.cliAt x = some c) (hreg : c.registered = true)
    (ha : ar[1]? = some a) (hhash : HASH ∈ a) (hitems : splitArgToSubargs a = L ++ n :: R)
    (h : tooManyTargets (splitArgToSubargs a) = true ∨ MAX_CHS_PER_USER - 1 < s.nbChannels x) :
    ∃ m, s.execJoin x ar = s.prepareResp x m := by
  rw [execJoin_eq hI hc hreg ha (not_zero hhash)]
  split
  · exact ⟨_, rfl⟩
  · rename_i hrun
    rw [hitems]
    exact ⟨_, joinLoop_middle (h.resolve_left hrun)⟩

/-- Two spellings of a `JOIN` that both succeed do the same, if both are refused, or neither, or the
author is on too many channels. -/
theorem execJoin_same {u u' : Server} (hI : Inv s) (hc : s.cliAt x = some c)
    (hreg : c.registered = true) (hcmd : CmdIs ar "JOIN") (ha : ar[1]? = some a)
    (ha' : ar'[1]? = some a') (hkeys : joinKeys ar' = joinKeys ar)
    (hsp : Respelling s a a' L n n' R) (hok : s.execJoin x ar = .ok u)
    (hok' : s.execJoin x ar' = .ok u')
    (hcond : tooManyTargets (splitArgToSubargs a) = tooManyTargets (splitArgToSubargs a') ∨
      MAX_CHS_PER_USER - 1 < s.nbChannels x) :
    SameOutcome s (s.execJoin x ar) (s.execJoin x ar') := by
  have hz : ¬ (ar.length = 2 ∧ a = str "0") := not_zero hsp.hash.1
  by_cases hreply : tooManyTargets (splitArgToSubargs a) = true ∨ MAX_CHS_PER_USER - 1 < s.nbChannels x
  · obtain ⟨m, hm⟩ := execJoin_reply hI hc hreg ha hsp.hash.1 hsp.items hreply
    obtain ⟨m', hm'⟩ := execJoin_reply hI hc hreg ha' hsp.hash.2 hsp.items' (by
      rcases hcond with heq | hmany
      · rwa [heq] at hreply
      · exact .inr hmany)
    rw [hm, hm']
    rw [hm] at hok
    exact sameOutcome_replies hok m'
  · obtain ⟨hrun, hfew⟩ := not_or.mp hreply
    have hrun' : ¬ tooManyTargets (splitArgToSubargs a') = true := by
      rwa [← hcond.resolve_right hfew]
    rw [execJoin_eq hI hc hreg ha hz, if_neg hrun, hsp.items] at hok ⊢
    rw [execJoin_eq hI hc hreg ha' (not_zero hsp.hash.2), if_neg hrun', hsp.items', hkeys] at hok' ⊢
    rcases joinLoop_append x c L (joinKeys ar) s with ⟨e, he⟩ | ⟨t, ht⟩ | ⟨t, passes, ht⟩
    · rw [he] at hok
      cases hok
    · rw [ht] at hok
      rw [ht, ht]
      exact sameOutcome_replies hok _
    · -- the respelled name is reached, in the state `t`
      rw [ht] at hok hok'
      rw [ht, ht]
      by_cases hmany : MAX_CHS_PER_USER - 1 < t.nbChannels x
      · rw [joinLoop_stop hmany] at hok
        rw [joinLoop_stop hmany, joinLoop_stop hmany]
        exact sameOutcome_replies hok _
      · have hloop : joinLoop x c a L (joinKeys ar) s = .ok t := by
          have := ht a []
          rwa [List.append_nil] at this
        have hmem : ∀ i ∈ L, i ∈ splitArgToSubargs a := fun i hi => by simp [hsp.items, hi]
        obtain ⟨-, hmid, -⟩ := (joinLoop_spec ((isReg_iff hc).mpr hreg) hcmd
          (not_partCmd hcmd ha hz) ha L (joinKeys ar) [] s hmem (fun _ hp => mem_joinKeys hp)
          (.refl hI hc) (.refl hc)).of_ok hloop
        -- the channel still exists, so the name must be its key, in both spellings
        have hkey : ∀ {v w b R u}, Respelt s v w → joinLoop x c b (v :: R) passes t = .ok u →
            v ∈ t.chs := by
          intro v w b R u hv hb
          by_contra hno
          obtain ⟨k, hk, hlow⟩ := hv.key
          have hget : t.getCh v ≠ none := fun h0 =>
            getCh_none_iff.mp h0 k (hmid.steps.keys k hk) hlow.symm
          exact joinLoop_misspelt hmany (hv.chName hI).1 hget hno b R passes u hb
        have heq : n = n' := hmid.inv.ch_inj n (hkey hsp.respelt hok) n'
          (hkey hsp.respelt.symm hok') hsp.respelt.lower.symm
        rw [← hsp.eq heq, ← heq]
        exact sameOutcome_refl hok

/-- If `407` tells two spellings of a `JOIN` apart and they still do the same, the author is on too
many channels. -/
theorem execJoin_full (hI : Inv s) (hc : s.cliAt x = some c)
    (hreg : c.registered = true) (hcmd : CmdIs ar "JOIN") (ha : ar[1]? = some a)
    (ha' : ar'[1]? = some a') (hsp : Respelling s a a' L n n' R)
    (hrun : tooManyTargets (splitArgToSubargs a) = false)
    (hstop : tooManyTargets (splitArgToSubargs a') = true)
    (hsame : SameOutcome s (s.execJoin x ar) (s.execJoin x ar')) :
    MAX_CHS_PER_USER - 1 < s.nbChannels x := by
  by_contra hfew
  obtain ⟨t, t', ht, ht', hchs, -⟩ := hsame
  obtain ⟨hsafe, hmid, hJ⟩ :=
    (execJoin_list (.refl hI hc) hcmd hreg ha (not_zero hsp.hash.1) hrun).of_ok ht
  -- the refusal changes no channel, so the other line joins none
  rw [execJoin_eq hI hc hreg ha' (not_zero hsp.hash.2), if_pos hstop,
    prepareResp_sendAll (deref_of_cliAt hI hc)] at ht'
  cases ht'
  rw [chs_sendAll] at hchs
  have hnil : joins s x c [] (splitArgToSubargs a) (joinKeys ar) = [] := by
    refine List.eq_nil_iff_forall_not_mem.mpr fun k hk => hJ.fresh k hk ?_
    have hon := hJ.on k hk
    unfold On at hon ⊢
    rwa [hchs] at hon
  obtain ⟨hne, hmem⟩ := hsp.mem_of_refused hrun hstop
  obtain ⟨k, hk, hlow⟩ := hsp.respelt.key
  have hspelt : ∀ v ∈ L ++ n :: R, badName v = false → toLower k = toLower v → k = v :=
    fun v hv hbad hv' =>
      spelled_of_joins_nil hfew _ _ hsafe hnil v (by rw [hsp.items]; exact hv) hbad k hk hv'
  have hn := hspelt n (by simp) (hsp.respelt.chName hI).1 hlow.symm
  have hn' := hspelt n' (by
    rcases List.mem_append.mp hmem with hm | hm <;> simp [hm])
    (hsp.respelt.symm.chName hI).1 (hlow.symm.trans hsp.respelt.lower.symm)
  exact hne (hn.symm.trans hn')

end FtIrc
