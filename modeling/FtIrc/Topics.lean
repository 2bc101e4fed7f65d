import FtIrc.NamesList
import FtIrc.Roster

/-!
# The topic of a channel

A topic is shown in four places, each of which writes it in its own way: the reply to the client that sets
it, the line that announces it to the channel, the reply to `TOPIC` without a text, and the line for a
client that joins.  `OneTopic` says that all four show the same text until the topic is changed.

The first two put a digit in front of the text, so `OneTopic` never holds.  `one_topic` has this, and which
members are told the topic when they ask, and that a client that joins is told it as it is.
-/

namespace FtIrc

open Std Outcome Server

variable {s s' : Server} {x y : Ptr} {ar : List Str} {c d : Cli} {k t text line m : Str} {ch : Ch}
  {header : Str} {a : UInt8} {n : Nat} {pass : Str} {lfd : Nat} {cfg cfg' : Config} {i : Input}

/-! ## The law -/

/-- The line `m`, as it is kept, is the header and behind it the text, as far as it is kept. -/
def Shows (header text m : Str) : Prop := m = (header ++ text).take (MAX_CMD_LEN - 2)

/-- The reply to a client about the topic. -/
def replyHeader (c : Cli) (k : Str) : Str := str "332 :" ++ c.nick ++ str " " ++ k ++ str " :"

/-- The announcement of a topic that `c` has set. -/
def announceHeader (c : Cli) (k : Str) : Str := str ":" ++ c.nick ++ str "@localhost" ++ str " TOPIC " ++ k ++ str " :"

/-- What is told to a client that joins. -/
def joinHeader (c : Cli) (k : Str) : Str := str "332 " ++ c.nick ++ str " " ++ k ++ str " :"

def TopicIs (s : Server) (k t : Str) : Prop := ∃ ch, s.chs[k]? = some ch ∧ ch.topic = t

/-- The next command is a `TOPIC` of `x` that sets the topic of `k` to the text `t`. -/
def SetsTopic (cfg : Config) (x : Ptr) (k t : Str) : Prop :=
  ∃ line, cfg.upcoming = some (x, line) ∧ CmdIs (splitCmdToArgs line) "TOPIC" ∧ (splitCmdToArgs line)[1]? = some k ∧
    (splitCmdToArgs line)[2]? = some t ∧ t ≠ str ":" ∧ ∃ ch, cfg.srv.chs[k]? = some ch ∧ MayTopic x ch

instance : Decidable (SetsTopic cfg x k t) :=
  decidable_of_iff (cfg.upcoming.any (fun e => decide (e.1 = x ∧ CmdIs (splitCmdToArgs e.2) "TOPIC" ∧
      (splitCmdToArgs e.2)[1]? = some k ∧ (splitCmdToArgs e.2)[2]? = some t ∧ t ≠ str ":" ∧
        (cfg.srv.chs[k]?).any (fun ch => decide (MayTopic x ch)) = true)) = true) (by
    simp only [SetsTopic, Option.any_eq_true, decide_eq_true_eq, Prod.exists]
    constructor
    · rintro ⟨y, line, hnext, rfl, h⟩
      exact ⟨line, hnext, h⟩
    · rintro ⟨line, hnext, h⟩
      exact ⟨x, line, hnext, rfl, h⟩)

/-- The configuration `later` is reached from `cfg` while the topic stays. -/
def Unchanged (k t : Str) (cfg later : Config) : Prop :=
  ∃ is, Runs.run step is cfg = .ok later ∧ Runs.Along step (fun cfg _ => TopicIs cfg.srv k t) is cfg ∧
    TopicIs later.srv k t

/-- After the step from `cfg` to `cfg'`, in which `x` sets the topic of `k` to `t`, everybody is shown `t`. -/
structure OneTopic (cfg cfg' : Config) (x : Ptr) (k t : Str) : Prop where
  setter : ∀ c, cfg.srv.cliAt x = some c → Told cfg.srv cfg'.srv x (Shows (replyHeader c k) t)
  members : ∀ c, cfg.srv.cliAt x = some c → ∀ y, On cfg.srv y k →
    Told cfg.srv cfg'.srv y (Shows (announceHeader c k) t)
  asked : ∀ later, Unchanged k t cfg' later → ∀ y d line s', later.srv.cliAt y = some d → On later.srv y k →
    splitCmdToArgs line = [str "TOPIC", k] → later.srv.execLine y line = .ok s' →
      Told later.srv s' y (Shows (replyHeader d k) t)
  joined : ∀ later, Unchanged k t cfg' later → ∀ y d line s', later.srv.cliAt y = some d →
    later.srv.execLine y line = .ok s' → ¬ On later.srv y k → On s' y k →
      Told later.srv s' y (Shows (joinHeader d k) t)

/-! ## The lines -/

/-- An octet in front of a text is not seen only if the text begins with it. -/
theorem head?_of_shows (hlen : header.length < MAX_CMD_LEN - 2)
    (h : Shows header t ((header ++ a :: t).take (MAX_CMD_LEN - 2))) : t.head? = some a := by
  unfold Shows at h
  generalize MAX_CMD_LEN - 2 = n at hlen h
  obtain ⟨j, hj⟩ : ∃ j, n - header.length = j + 1 := ⟨n - header.length - 1, by omega⟩
  rw [List.take_append, List.take_append, List.append_cancel_left_eq, hj, List.take_succ_cons] at h
  cases t with
  | nil => cases h
  | cons b t => exact congrArg some (List.cons.inj h).1.symm

/-- Lines that begin in different ways are different. -/
theorem not_shows_of_head (hne : header ≠ []) (hm : m.head? ≠ header.head?) :
    ¬ Shows header t (m.take (MAX_CMD_LEN - 2)) := by
  obtain ⟨b, w, rfl⟩ := List.exists_cons_of_ne_nil hne
  intro h
  refine hm ?_
  have hpos : MAX_CMD_LEN - 2 = 509 + 1 := rfl
  unfold Shows at h
  rw [hpos, List.cons_append, List.take_succ_cons] at h
  cases m with
  | nil => cases h
  | cons b' m =>
    rw [List.take_succ_cons] at h
    rw [(List.cons.inj h).1]
    rfl

theorem length_headers (hI : Inv s) (hc : s.cliAt x = some c) (hk : k ∈ s.chs) :
    (replyHeader c k).length < MAX_CMD_LEN - 2 ∧ (announceHeader c k).length < MAX_CMD_LEN - 2 := by
  have hnick := (hI.nick_chars c (cliAt_mem hc).1).1
  have hname := (hI.ch_name k hk).short
  have hmax : MAX_CMD_LEN - 2 = 510 := rfl
  have h1 : (str "332 :").length = 5 := rfl
  have h2 : (str "@localhost").length = 10 := rfl
  have h3 : (str " TOPIC ").length = 7 := rfl
  have h4 : (str ":").length = 1 := rfl
  have h5 : (str " :").length = 2 := rfl
  have h6 : (str " ").length = 1 := rfl
  unfold replyHeader announceHeader
  simp only [List.length_append]
  omega

/-! ## What the commands prepare -/

/-- A text that is set is shown with a digit in front of it. -/
theorem setTopicMail_eq (hcolon : t ≠ str ":") (hne : t ≠ []) : setTopicMail x c k t ch =
    (x, replyHeader c k ++ 49 :: t) :: bcast ch (announceHeader c k ++ 50 :: t) := by
  have h1 : str " :1" ++ t = str " :" ++ 49 :: t := rfl
  have h2 : str " :2" ++ t = str " :" ++ 50 :: t := rfl
  unfold setTopicMail replyHeader announceHeader
  rw [if_neg (not_or.mpr ⟨hcolon, hne⟩)]
  simp only [List.append_assoc, h1, h2]

/-- `TOPIC` of a member. -/
theorem cmdRun_topic_member (hI : Inv s) (hc : s.cliAt x = some c) (hch : s.chs[k]? = some ch) (hx : x ∈ ch.clis)
    (hcmd : CmdIs ar "TOPIC") (hk : ar[1]? = some k) :
    (cmdRun s x c ar).1 = topicDone s x k ar[2]? ∧ (cmdRun s x c ar).2 =
      if x ∉ ch.adms ∧ ch.optT = true then [(x, str "482 " ++ k ++ str " :You're not channel operator")]
      else match ar[2]? with
        | none => if ch.topic = [] then [(x, noTopicLine c k)] else [(x, replyHeader c k ++ ch.topic)]
        | some t => setTopicMail x c k t ch := by
  have hreg := registered_of_on hI hc ⟨ch, hch, hx⟩
  have hlen := (List.getElem?_eq_some_iff.mp hk).1
  rw [cmdRun_topic hcmd]
  unfold topicRun registeredRun topicMail
  rw [if_neg (by simp [hreg]), if_neg (by omega), argD_of_getElem? hk,
    if_neg (by rw [getCh_self hI (mem_chs.mpr ⟨ch, hch⟩)]; simp), hch]
  simp only [if_neg (not_not.mpr hx)]
  exact ⟨trivial, rfl⟩

theorem topicDone_set (hch : s.chs[k]? = some ch) (hmay : MayTopic x ch) :
    (topicDone s x k (some t)).chs[k]? = some { ch with topic := newTopic t } := by
  have hdone : topicDone s x k (some t) = s.updCh k fun ch => { ch with topic := newTopic t } := by
    refine if_pos ?_
    rw [hch]
    simpa using hmay
  rw [hdone, updCh_const hch fun ch => { ch with topic := newTopic t }, getElem?_chs_put hch, if_pos rfl]

/-- **A topic that is set is never shown to everybody as it is.** -/
theorem not_oneTopic (hg : Good cfg) (hstep : step cfg i = .ok cfg') (hsets : SetsTopic cfg x k t) :
    TopicIs cfg'.srv k t ∧ ¬ OneTopic cfg cfg' x k t := by
  obtain ⟨line, hnext, hcmd, hk, ht, hcolon, ch, hch, hmay⟩ := hsets
  obtain ⟨c, hc, hs⟩ := exec_of_upcoming hg hstep hnext
  have hI := hg.inv
  have hne : t ≠ [] := (splitCmdToArgs_arg (List.mem_of_getElem? ht)).1
  have hrun := cmdRun_topic_member hI hc hch hmay.1 hcmd hk
  have hnot : ¬ (x ∉ ch.adms ∧ ch.optT = true) := by
    rintro ⟨hop, hopt⟩
    rcases hmay.2 with h | h
    · exact hop h
    · rw [hopt] at h
      cases h
  rw [if_neg hnot, ht] at hrun
  refine ⟨?_, ?_⟩
  · -- the topic is set
    obtain ⟨u, -, hs', hu, -, -⟩ := execLine_run hI hc hs
    refine ⟨{ ch with topic := newTopic t }, ?_, if_neg (not_or.mpr ⟨hcolon, hne⟩)⟩
    rw [hs', chs_note, hu, chs_sendAll, hrun.1, topicDone_set hch hmay]
  have hmail : (cmdRun cfg.srv x c (splitCmdToArgs line)).2 =
      (x, replyHeader c k ++ 49 :: t) :: bcast ch (announceHeader c k ++ 50 :: t) :=
    hrun.2.trans (setTopicMail_eq hcolon hne)
  obtain ⟨hreply, hannounce⟩ := length_headers hI hc (mem_chs.mpr ⟨ch, hch⟩)
  intro hlaw
  obtain ⟨m, hm, hshows⟩ := (told_execLine hI hc hs hc).mp (hlaw.setter c hc)
  obtain ⟨m', hm', hshows'⟩ := (told_execLine hI hc hs hc).mp (hlaw.members c hc x ⟨ch, hch, hmay.1⟩)
  rw [hmail, List.mem_cons, mem_bcast] at hm hm'
  -- the reply begins with one digit, the announcement with another
  have hone : t.head? = some 49 := by
    rcases hm with he | ⟨-, rfl⟩
    · rw [(Prod.mk.inj he).2] at hshows
      exact head?_of_shows hreply hshows
    · exact absurd hshows (not_shows_of_head (by simp [replyHeader, str]) (by simp [replyHeader, announceHeader, str]))
  have htwo : t.head? = some 50 := by
    rcases hm' with he | ⟨-, rfl⟩
    · rw [(Prod.mk.inj he).2] at hshows'
      exact absurd hshows' (not_shows_of_head (by simp [announceHeader, str]) (by simp [replyHeader, announceHeader, str]))
    · exact head?_of_shows hannounce hshows'
  rw [hone] at htwo
  exact absurd htwo (by decide)

/-- A member that asks is told the topic, unless only operators may set it. -/
theorem asked_iff (hI : Inv s) (hd : s.cliAt y = some d) (hch : s.chs[k]? = some ch) (hy : y ∈ ch.clis)
    (hne : ch.topic ≠ []) (hline : splitCmdToArgs line = [str "TOPIC", k]) : ∃ s', s.execLine y line = .ok s' ∧
      (Told s s' y (Shows (replyHeader d k) ch.topic) ↔ y ∈ ch.adms ∨ ch.optT = false) := by
  have hcmd : CmdIs (splitCmdToArgs line) "TOPIC" := by rw [hline]; rfl
  have hk : (splitCmdToArgs line)[1]? = some k := by rw [hline]; rfl
  have hnamed : NamedOk s y (splitCmdToArgs line) := fun _ a ha _ => by
    rw [hk, Option.mem_some] at ha
    exact ha ▸ mem_chs.mpr ⟨ch, hch⟩
  have hsafe : CmdSafe s y (splitCmdToArgs line) := (cmdSafe_topic hcmd).mpr hnamed
  obtain ⟨s', hs'⟩ := (execLine_ok_iff hI hd).mpr hsafe
  refine ⟨s', hs', ?_⟩
  rw [told_execLine hI hd hs' hd, (cmdRun_topic_member hI hd hch hy hcmd hk).2, hline]
  by_cases hop : y ∉ ch.adms ∧ ch.optT = true
  · rw [if_pos hop]
    refine iff_of_false ?_ fun h => h.elim hop.1 (by simp [hop.2])
    rintro ⟨m, hm, hshows⟩
    rw [(Prod.mk.inj (List.mem_singleton.mp hm)).2] at hshows
    exact not_shows_of_head (by simp [replyHeader, str]) (by simp [replyHeader, str]) hshows
  · rw [if_neg hop]
    refine iff_of_true ⟨replyHeader d k ++ ch.topic, ?_, rfl⟩ ?_
    · simp [hne]
    · by_contra hno
      push Not at hno
      exact hop ⟨hno.1, by simpa using hno.2⟩

/-- A client that joins is told the topic. -/
theorem joined_shows (hI : Inv s) (hd : s.cliAt y = some d) (h : s.execLine y line = .ok s') (hoff : ¬ On s y k)
    (hon : On s' y k) (htopic : TopicIs s k t) (hne : t ≠ []) : Told s s' y (Shows (joinHeader d k) t) := by
  obtain ⟨ch, hch, rfl⟩ := htopic
  obtain ⟨-, -, before, after, hinbox, -, -⟩ := execLine_comes hI hd h hoff hon
  have hmem : joinHeader d k ++ ch.topic ∈ told s d k (entered s y k) := by
    have hsame : (entered s y k).topic = ch.topic := by
      unfold entered
      rw [hch]
      rfl
    unfold told joinHeader
    rw [hsame, if_pos hne]
    exact List.mem_cons_of_mem _ (List.mem_append_left _ (List.mem_singleton.mpr rfl))
  refine (told_execLine hI hd h hd).mpr ⟨_, mem_inbox.mp ?_, rfl⟩
  rw [hinbox]
  exact List.mem_append_right _ (List.mem_append_left _ hmem)

/-- **Who is shown which topic.**  When a topic is set, the setter and the members are not shown the text that
was set; later a member that asks is shown it exactly if it is an operator or everybody may set the topic, and
a client that joins is always shown it. -/
theorem one_topic (pass : Str) (lfd : Nat) :
    (∀ cfg i cfg' x k t, Reachable pass lfd cfg → step cfg i = .ok cfg' → SetsTopic cfg x k t →
      TopicIs cfg'.srv k t ∧ ¬ OneTopic cfg cfg' x k t) ∧
    (∀ cfg y d k ch line, Reachable pass lfd cfg → cfg.srv.cliAt y = some d → cfg.srv.chs[k]? = some ch →
      y ∈ ch.clis → ch.topic ≠ [] → splitCmdToArgs line = [str "TOPIC", k] →
      ∃ s', cfg.srv.execLine y line = .ok s' ∧
        (Told cfg.srv s' y (Shows (replyHeader d k) ch.topic) ↔ y ∈ ch.adms ∨ ch.optT = false)) ∧
    ∀ cfg y d k t line s', Reachable pass lfd cfg → cfg.srv.cliAt y = some d → cfg.srv.execLine y line = .ok s' →
      ¬ On cfg.srv y k → On s' y k → TopicIs cfg.srv k t → t ≠ [] → Told cfg.srv s' y (Shows (joinHeader d k) t) :=
  ⟨fun _ _ _ _ _ _ hr hstep hsets => not_oneTopic hr.good hstep hsets,
    fun _ _ _ _ _ _ hr hd hch hy hne hline => asked_iff hr.good.inv hd hch hy hne hline,
    fun _ _ _ _ _ _ _ hr hd h hoff hon htopic hne => joined_shows hr.good.inv hd h hoff hon htopic hne⟩

/-- A client makes a channel, and comes to set its topic. -/
def settingTopic : List Input := connect 0 alice ++ wait [silent, readable] ++
  [.next, .recv (.data (register "al" ++ str "JOIN #c\r\nTOPIC #c :hi\r\n")), .next, .next, .next, .next]

theorem exists_setTopic : ∃ cfg cfg', Reachable (str "2") 3 cfg ∧ step cfg .next = .ok cfg' ∧
    SetsTopic cfg alice.addr (str "#c") (str "hi") := by
  obtain ⟨cfg, hrun, hP⟩ := exists_run (str "2") 3 settingTopic
    (fun cfg => decide (SetsTopic cfg alice.addr (str "#c") (str "hi")) && (step cfg .next).toOption.isSome)
    (by decide +kernel)
  rw [Bool.and_eq_true, decide_eq_true_eq, Option.isSome_iff_exists] at hP
  obtain ⟨hsets, cfg', hstep⟩ := hP
  exact ⟨cfg, cfg', ⟨_, hrun⟩, eq_ok_of_toOption hstep, hsets⟩

/-- A topic that has been set. -/
theorem one_topic_set : ∃ cfg cfg', Reachable (str "2") 3 cfg ∧ step cfg .next = .ok cfg' ∧
    SetsTopic cfg alice.addr (str "#c") (str "hi") ∧ ¬ OneTopic cfg cfg' alice.addr (str "#c") (str "hi") := by
  obtain ⟨cfg, cfg', hr, hstep, hsets⟩ := exists_setTopic
  exact ⟨cfg, cfg', hr, hstep, hsets, ((one_topic (str "2") 3).1 _ _ _ _ _ _ hr hstep hsets).2⟩

/-- `TOPIC #c :hi` tells the setter `1hi` and the channel `2hi`. -/
theorem topic_marked : ¬ ∀ (pass : Str) (lfd : Nat) (cfg : Config) (i : Input) (cfg' : Config) (x : Ptr) (k t : Str),
    Reachable pass lfd cfg → step cfg i = .ok cfg' → SetsTopic cfg x k t → OneTopic cfg cfg' x k t := by
  intro hall
  obtain ⟨cfg, cfg', hr, hstep, hsets⟩ := exists_setTopic
  exact (not_oneTopic hr.good hstep hsets).2 (hall _ _ _ _ _ _ _ _ hr hstep hsets)

end FtIrc
