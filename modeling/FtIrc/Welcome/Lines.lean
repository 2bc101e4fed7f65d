import FtIrc.Meaning.Relay

/-!
# Which lines are welcomes

`RPL_WELCOME` is told from the other lines by its beginning.  Of the commands other than `PASS`, `NICK`,
`USER` and `CAP` only one prepares a line that begins so: a `JOIN` that is refused (`plain_cmdRun`).
-/

namespace FtIrc

open Std Outcome Server

variable {s : Server} {x : Ptr} {ar : List Str} {c : Cli} {k m u v a1 a2 text : Str} {ch : Ch}
  {mail mail' : Mail}

/-! ## Lines -/

/-- The line is one of `RPL_WELCOME`. -/
def isWelcome (m : Str) : Bool := (str "001 ").isPrefixOf m

/-- The `RPL_WELCOME` lines that have been prepared for a client. -/
def Cli.welcomes (c : Cli) : Nat := c.hist.prepared.countP isWelcome

/-- Begins with another byte than the `0` of `001`. -/
def Other (m : Str) : Prop := ∃ b, m.head? = some b ∧ b ≠ 48

instance : Decidable (Other m) :=
  match m with
  | [] => .isFalse fun h => by simp [Other] at h
  | b :: m => decidable_of_iff (b ≠ 48) (by simp [Other])

theorem other_append (h : Other u) : Other (u ++ v) := by
  obtain ⟨b, hb, hne⟩ := h
  refine ⟨b, ?_, hne⟩
  rw [List.head?_append, hb]
  rfl

theorem Other.not_welcome (h : Other m) : isWelcome m = false := by
  obtain ⟨b, hb, hne⟩ := h
  cases m with
  | nil => cases hb
  | cons a m =>
    cases hb
    have hzero : ((48 : UInt8) == b) = false := beq_eq_false_iff_ne.mpr hne.symm
    show ((48 : UInt8) == b && _) = false
    rw [hzero]
    rfl

theorem other_colon : Other (str ":" ++ v) := other_append (by decide)

/-- None of the lines is a welcome. -/
def Plain (mail : Mail) : Prop := ∀ e ∈ mail, isWelcome e.2 = false

theorem plain_nil : Plain [] := fun _ h => by cases h

theorem plain_cons (h : Other m) (hmail : Plain mail) : Plain ((x, m) :: mail) :=
  List.forall_mem_cons.mpr ⟨h.not_welcome, hmail⟩

theorem plain_reply (h : Other m) : Plain [(x, m)] := plain_cons h plain_nil

theorem plain_append (h : Plain mail) (h' : Plain mail') : Plain (mail ++ mail') :=
  List.forall_mem_append.mpr ⟨h, h'⟩

theorem plain_bcast (h : Other m) : Plain (bcast ch m) := fun e he => by
  rw [(mem_bcast.mp he).2]
  exact h.not_welcome

theorem plain_bcastOthers (h : Other m) : Plain (bcastOthers ch x m) := fun e he => by
  rw [(mem_bcastOthers.mp he).2.2]
  exact h.not_welcome

theorem plain_flatMap {α : Type} {l : List α} {f : α → Mail} (h : ∀ a ∈ l, Plain (f a)) :
    Plain (l.flatMap f) := fun e he => by
  obtain ⟨a, ha, he⟩ := List.mem_flatMap.mp he
  exact h a ha e he

theorem Plain.count (h : Plain mail) : (inbox x mail).countP isWelcome = 0 := by
  rw [List.countP_eq_zero]
  intro m hm
  rw [h (x, m) (mem_inbox.mp hm)]
  exact Bool.false_ne_true

/-! ## The commands that do not welcome -/

theorem plain_privmsgMails : Plain (privmsgMails s x c a1 a2) := by
  refine plain_flatMap fun target _ => ?_
  have hline : Other (privmsgLine c a1 a2) := other_append (other_append (other_append (other_append other_colon)))
  unfold privmsgMail
  repeat' split
  · exact plain_reply (other_append (other_append (other_append (by decide))))
  · exact plain_bcastOthers hline
  · exact plain_reply (other_append (other_append (other_append (other_append (by decide)))))
  · exact plain_nil
  · exact plain_reply (other_append (other_append (other_append (by decide))))
  · exact plain_reply hline

theorem plain_noticeMails : Plain (noticeMails s x c a1 a2) := by
  refine plain_flatMap fun target _ => ?_
  have hline : Other (noticeLine c a1 a2) := other_append (other_append (other_append (other_append (other_append other_colon))))
  unfold noticeMail
  repeat' split
  · exact plain_bcastOthers hline
  · exact plain_nil
  · exact plain_nil
  · exact plain_reply hline

theorem plain_whoisMails : Plain (whoisMails s x ar) := by
  unfold whoisMails
  split
  · refine plain_flatMap fun nick _ => ?_
    unfold whoisMail
    split
    · have hline : Other (str "311 " ++ nick) := other_append (by decide)
      exact plain_cons (other_append (other_append (other_append (other_append (other_append (other_append hline))))))
        (plain_reply (other_append (other_append (by decide))))
    · exact plain_reply (other_append (other_append (by decide)))
  · exact plain_reply (by decide)

theorem plain_partMails : Plain (partMails s x c a1 text) := by
  refine plain_flatMap fun item _ => ?_
  unfold partMail
  repeat' split
  · exact plain_reply (other_append (other_append (by decide)))
  · exact plain_bcast (other_append (other_append (other_append other_colon)))
  · exact plain_reply (other_append (other_append (by decide)))
  · exact plain_nil

theorem plain_kickMail {who : Str → Ptr} (h : Other m) : ∀ (targets : List Str) (ch : Ch),
    Plain (kickMail who x k m ch targets)
  | [], _ => plain_nil
  | target :: targets, ch => by
    unfold kickMail
    split
    · exact plain_append (plain_bcast h) (plain_kickMail h targets _)
    · exact plain_cons (other_append (other_append (other_append (other_append (by decide))))) (plain_kickMail h targets ch)

theorem plain_kickMails : Plain (kickMails s x c a1 a2 text) := by
  refine plain_flatMap fun item _ => ?_
  have hline : Other (kickLine c a1 a2 text) :=
    other_append (other_append (other_append (other_append (other_append other_colon))))
  unfold kickItem
  repeat' split
  · exact plain_reply (other_append (other_append (by decide)))
  · exact plain_reply (other_append (other_append (by decide)))
  · exact plain_reply (other_append (other_append (by decide)))
  · exact plain_kickMail hline _ _
  · exact plain_nil

theorem plain_inviteMail : Plain (inviteMail s x c a1 a2) := by
  have hline : Other (inviteLine c a1 a2) := other_append (other_append (other_append (other_append other_colon)))
  unfold inviteMail
  repeat' split
  · exact plain_reply (other_append (other_append (by decide)))
  · exact plain_reply (other_append (other_append (by decide)))
  · exact plain_reply (other_append (other_append (by decide)))
  · exact plain_reply (other_append (other_append (by decide)))
  · exact plain_reply (other_append (other_append (other_append (other_append (by decide)))))
  · exact plain_append (plain_cons (other_append (other_append (other_append (other_append other_colon)))) (plain_reply hline))
      (plain_bcast hline)
  · exact plain_nil

theorem plain_topicMail {text : Option Str} : Plain (topicMail s x c a1 text) := by
  have hset : ∀ a2 ch, Plain (setTopicMail x c a1 a2 ch) := by
    intro a2 ch
    unfold setTopicMail
    split
    · exact plain_append (plain_bcast (other_append (other_append (other_append (other_append other_colon)))))
        (plain_reply (other_append (other_append (other_append (other_append (by decide))))))
    · exact plain_cons (other_append (other_append (other_append (other_append (other_append (by decide))))))
        (plain_bcast (other_append (other_append (other_append (other_append (other_append other_colon))))))
  unfold topicMail
  repeat' split
  · exact plain_reply (other_append (other_append (by decide)))
  · exact plain_reply (other_append (other_append (by decide)))
  · exact plain_reply (other_append (other_append (by decide)))
  · exact plain_reply (other_append (other_append (other_append (other_append (by decide)))))
  · exact plain_reply (other_append (other_append (other_append (other_append (other_append (by decide))))))
  · exact hset _ _
  · exact plain_nil

theorem other_optionReply {who : Str → Ptr} {opt val : Str} (h : optionReply who c ar opt val ch = some m) :
    Other m := by
  unfold optionReply at h
  split at h
  · cases h
    exact other_append (other_append (other_append (by decide)))
  split at h
  · cases h
    decide
  split at h
  · cases h
    exact other_append (other_append (by decide))
  split at h
  · cases h
    exact other_append (other_append (other_append (other_append (by decide))))
  split at h
  · cases h
    exact other_append (other_append (other_append (other_append (by decide))))
  split at h
  · cases h
    exact other_append (other_append (other_append (other_append (by decide))))
  · cases h

theorem plain_modeMail {who : Str → Ptr} : ∀ (os : List (Str × Str)) (ch : Ch),
    Plain (modeMail who x c ar os ch)
  | [], _ => plain_nil
  | o :: os, ch => by
    unfold modeMail optionMail
    refine plain_append ?_ (plain_modeMail os _)
    split
    · rename_i m hm
      exact plain_reply (other_optionReply hm)
    · exact plain_bcast (other_append (other_append (other_append (other_append other_colon))))

theorem plain_modeChMail : Plain (modeChMail s x c ar) := by
  unfold modeChMail
  repeat' split
  · exact plain_reply (other_append (other_append (by decide)))
  · exact plain_reply (other_append (other_append (by decide)))
  · exact plain_reply (other_append (other_append (by decide)))
  · exact plain_reply (other_append (other_append (other_append (by decide))))
  · exact plain_modeMail _ _
  · exact plain_nil

theorem plain_modeCliMail : Plain (modeCliMail s x c ar) := by
  unfold modeCliMail
  repeat' split
  · exact plain_reply (other_append (other_append (by decide)))
  · exact plain_reply (other_append (other_append (by decide)))
  · exact plain_reply (other_append (other_append (by decide)))
  · exact plain_reply (other_append (other_append (other_append (other_append other_colon))))
  · exact plain_nil

theorem other_refusal {me : Cli} {name pass : Str} (h : refusal me ch name pass = some m) : Other m := by
  unfold refusal at h
  split at h
  · cases h
    exact other_append (other_append (by decide))
  split at h
  · cases h
    exact other_append (other_append (by decide))
  split at h
  · cases h
    exact other_append (other_append (by decide))
  · cases h

theorem plain_joinedMail {u : Server} {name : Str} : Plain (joinedMail u x c name ch) := by
  refine plain_append (plain_append ?_ ?_) ?_
  · exact plain_bcast (other_append (other_append (other_append other_colon)))
  · split
    · exact plain_reply (other_append (other_append (other_append (other_append (other_append (by decide))))))
    · exact plain_nil
  · exact plain_bcast (other_append (other_append (other_append (other_append (other_append (by decide))))))

theorem plain_joinRun : ∀ (names passes : List Str) (u : Server), Plain (joinRun x c a1 names passes u).2
  | [], _, _ => plain_nil
  | name :: names, passes, u => by
    have hone : Plain (joinOne u x c name (passes.headD [])).2 := by
      unfold joinOne
      split
      · split
        · rename_i m hm
          exact plain_reply (other_refusal hm)
        · exact plain_joinedMail
      · exact plain_nil
    unfold joinRun
    split
    · exact plain_reply (other_append (other_append (by decide)))
    split
    · exact plain_cons (other_append (other_append (by decide))) (plain_joinRun names passes u)
    split
    · exact plain_cons (other_append (by decide)) (plain_joinRun names passes u)
    · exact plain_append hone (plain_joinRun names passes.tail _)

/-- A nick contains no space, so the line of `QUIT` does not begin like a welcome. -/
theorem plain_quitMail (hI : Inv s) : Plain (quitMail s ar) := by
  intro e he
  obtain ⟨d, hd, rfl⟩ := List.mem_map.mp he
  obtain ⟨v, hv⟩ : ∃ v, quitLine d (quitText ar) = d.nick ++ 33 :: v := by
    unfold quitLine hostPrefix
    simp only [List.append_assoc]
    exact ⟨_, rfl⟩
  have hspace : SPACE ∉ d.nick := fun h => absurd ((hI.nick_chars d hd).2 _ h) (by decide)
  rw [Bool.eq_false_iff]
  show (str "001 ").isPrefixOf (quitLine d (quitText ar)) ≠ true
  rw [hv, ne_eq, List.isPrefixOf_iff_prefix]
  rintro ⟨w, hw⟩
  rcases List.append_eq_append_iff.mp hw with ⟨a, ha, -⟩ | ⟨a, ha, hrest⟩
  · exact hspace (ha ▸ List.mem_append_left a (by decide))
  · cases a with
    | nil =>
      rw [List.append_nil] at ha
      exact hspace (ha ▸ by decide)
    | cons b a =>
      have hb : b = 33 := (List.cons.inj hrest).1.symm
      have hmem : b ∈ str "001 " := ha ▸ by simp
      rw [hb] at hmem
      exact absurd hmem (by decide)

theorem plain_registeredRun {r : Server × Mail} (h : Plain r.2) : Plain (registeredRun s x c r).2 := by
  unfold registeredRun
  split
  · exact plain_reply (other_append (other_append (by decide)))
  · exact h

theorem plain_partRun : Plain (partRun s x c ar).2 := by
  refine plain_registeredRun ?_
  split
  · exact plain_reply (by decide)
  · exact plain_partMails

/-- A `JOIN` of too many targets is refused by a line that begins with them: they can begin like a
welcome. -/
def MockWelcome (c : Cli) (ar : List Str) : Prop :=
  CmdIs ar "JOIN" ∧ c.registered = true ∧ 2 ≤ ar.length ∧
    tooManyTargets (splitArgToSubargs (argD ar 1)) = true ∧
    isWelcome (argD ar 1 ++ str " :407 recipients. Too many targets.") = true

instance : Decidable (MockWelcome c ar) := by
  unfold MockWelcome
  infer_instance

/-- The commands that send `RPL_WELCOME`. -/
def welcomeCmds : List String := ["PASS", "NICK", "USER", "CAP"]

/-- The commands that do not. -/
theorem plain_cmdRun (hI : Inv s) (hcmd : ∀ l ∈ welcomeCmds, ¬ CmdIs ar l) (hmock : ¬ MockWelcome c ar) :
    Plain (cmdRun s x c ar).2 := by
  refine cmdRun_cases (P := fun r => Plain r.2) (fun _ => plain_nil) (fun h => ?pass) (fun h => ?nick)
    (fun h => ?user) (fun _ => plain_quitMail hI) (fun _ => plain_reply (by decide)) (fun h => ?cap)
    (fun _ => plain_whoisMails) (fun _ => ?privmsg) (fun _ => ?notice) (fun h => ?join)
    (fun _ => plain_partRun) (fun _ => ?mode) (fun _ => ?topic) (fun _ => ?invite) (fun _ => ?kick)
    (fun _ _ _ => plain_reply (other_append (other_append (other_append (by decide)))))
  case pass => exact absurd h (hcmd _ (by simp [welcomeCmds]))
  case nick => exact absurd h (hcmd _ (by simp [welcomeCmds]))
  case user => exact absurd h (hcmd _ (by simp [welcomeCmds]))
  case cap => exact absurd h (hcmd _ (by simp [welcomeCmds]))
  case privmsg =>
    refine plain_registeredRun ?_
    split
    · exact plain_reply (other_append (other_append (by decide)))
    split
    · exact plain_reply (by decide)
    split
    · exact plain_reply (other_append (other_append (by decide)))
    · exact plain_privmsgMails
  case notice =>
    unfold noticeRun
    split
    · exact plain_nil
    · exact plain_noticeMails
  case join =>
    unfold execJoinRun registeredRun
    split
    · exact plain_reply (other_append (other_append (by decide)))
    · rename_i hreg
      split
      · exact plain_reply (by decide)
      split
      · exact plain_partRun
      split
      · rename_i h2 _ hmany
        intro e he
        rw [List.mem_singleton.mp he]
        rw [Bool.eq_false_iff]
        exact fun hw => hmock ⟨h, by simpa using hreg, by omega, hmany, hw⟩
      · exact plain_joinRun _ _ s
  case mode =>
    unfold modeRun
    split
    · exact plain_reply (by decide)
    split
    · exact plain_registeredRun plain_modeChMail
    · exact plain_modeCliMail
  case topic =>
    refine plain_registeredRun ?_
    split
    · exact plain_reply (by decide)
    · exact plain_topicMail
  case invite =>
    refine plain_registeredRun ?_
    split
    · exact plain_reply (by decide)
    · exact plain_inviteMail
  case kick =>
    refine plain_registeredRun ?_
    split
    · exact plain_reply (by decide)
    · exact plain_kickMails

end FtIrc
