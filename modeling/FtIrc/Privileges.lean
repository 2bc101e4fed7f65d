import FtIrc.Reach

/-!
# Channel privileges

`ChLater` is what a channel can become while a client executes a command: each change is tied to
the command and to what its author was on the channel when the command began.  One elementary
change keeps it (`ChEffect.later`), hence a whole command (`Steps.chLater`); the claims about
privileges are read off (`privileges`).
-/

namespace FtIrc

open Std Server

variable {s₀ s s' : Server} {x y p : Ptr} {ar : List Str} {k n : Str} {ch ch' d d' : Ch}
  {cfg : Config} {pass : Str} {lfd : Nat} {c : Cli}

/-! ## Who answers to a nick -/

theorem Effect.getCli (hI : Inv s) (hcmd : ¬ CmdIs ar "NICK") (h : Effect s₀ x ar s s') (n : Str) :
    s'.getCli n = s.getCli n := by
  cases h with
  | cli y c c' hc heff =>
    refine getCli_put hI hc heff.keeps.addr ?_
    rcases heff.later.nick with hn | ⟨-, hn⟩
    · exact hn
    · exact absurd hn hcmd
  | ch _ _ _ _ _ _ => rfl
  | newCh _ _ _ _ _ _ _ => rfl
  | mark _ _ _ => rfl

/-- A command other than `NICK` does not change who answers to a nick. -/
theorem Steps.getCli (hI : Inv s₀) (hcmd : ¬ CmdIs ar "NICK") (h : Steps s₀ x ar s) (n : Str) :
    s.getCli n = s₀.getCli n := by
  induction h with
  | refl => rfl
  | tail hs heff ih => rw [heff.getCli (Steps.inv hI hs).1 hcmd n, ih]

/-! ## What a channel becomes -/

/-- `MODE +o` of an operator, that names a member. -/
def Named (s₀ : Server) (x : Ptr) (ar : List Str) (k : Str) (ch : Ch) (y : Ptr) : Prop :=
  CmdIs ar "MODE" ∧ Op s₀ x k ∧ str "+o" ∈ ar ∧ y ∈ ch.clis ∧
    ∃ a val, ar[3]? = some a ∧ val ∈ splitArgToSubargs a ∧ s₀.getCli val = y

/-- The commands that make a client leave a channel. -/
def LeaveCmd (ar : List Str) : Prop := CmdIs ar "KICK" ∨ PartCmd ar

/-- The promotion of a member: no operator is left of those there were. -/
def Promoted (ar : List Str) (ch ch' : Ch) (y : Ptr) : Prop :=
  LeaveCmd ar ∧ y ∈ ch.clis ∧ (∀ q, q ∈ ch'.adms ↔ q = y) ∧ ∀ q ∈ ch.adms, q ∉ ch'.clis

/-- What the channel `k`, that was `ch`, can become while `x` executes `ar`. -/
structure ChLater (s₀ : Server) (x : Ptr) (ar : List Str) (k : Str) (ch ch' : Ch) : Prop where
  modes : (ch'.pass = ch.pass ∧ ch'.optI = ch.optI ∧ ch'.optT = ch.optT ∧ ch'.limit = ch.limit) ∨
    (CmdIs ar "MODE" ∧ Op s₀ x k)
  topic : ch'.topic = ch.topic ∨ (CmdIs ar "TOPIC" ∧
    ∃ ch₀, s₀.chs[k]? = some ch₀ ∧ x ∈ ch₀.clis ∧ (x ∈ ch₀.adms ∨ ch₀.optT = false))
  left : ∀ y ∈ ch.clis, y ∈ ch'.clis ∨ (PartCmd ar ∧ y = x) ∨ (CmdIs ar "KICK" ∧ Op s₀ x k)
  entered : ∀ y ∈ ch'.clis, y ∈ ch.clis ∨ (CmdIs ar "JOIN" ∧ ¬ PartCmd ar ∧ y = x)
  deposed : LeaveCmd ar → ∀ q ∈ ch.adms, q ∈ ch'.adms ∨ q ∉ ch'.clis
  adms : (∀ q ∈ ch'.adms, q ∈ ch.adms ∨ Named s₀ x ar k ch q) ∨ ∃ y, Promoted ar ch ch' y

theorem ChLater.refl (ch : Ch) : ChLater s₀ x ar k ch ch :=
  ⟨.inl ⟨rfl, rfl, rfl, rfl⟩, .inl rfl, fun _ => .inl, fun _ => .inl, fun _ _ => .inl,
    .inl fun _ => .inl⟩

/-- A change that leaves members and operators alone. -/
theorem ChLater.same (h : ChLater s₀ x ar k ch d) (hclis : d'.clis = d.clis) (hadms : d'.adms = d.adms)
    (hmodes : (d'.pass = d.pass ∧ d'.optI = d.optI ∧ d'.optT = d.optT ∧ d'.limit = d.limit) ∨
      (CmdIs ar "MODE" ∧ Op s₀ x k))
    (htopic : d'.topic = d.topic ∨ (CmdIs ar "TOPIC" ∧
      ∃ ch₀, s₀.chs[k]? = some ch₀ ∧ x ∈ ch₀.clis ∧ (x ∈ ch₀.adms ∨ ch₀.optT = false))) :
    ChLater s₀ x ar k ch d' := by
  refine ⟨?_, ?_, ?_, ?_, ?_, ?_⟩
  · rcases hmodes with ⟨h1, h2, h3, h4⟩ | hm
    · rcases h.modes with ⟨g1, g2, g3, g4⟩ | hm
      · exact .inl ⟨h1.trans g1, h2.trans g2, h3.trans g3, h4.trans g4⟩
      · exact .inr hm
    · exact .inr hm
  · rcases htopic with ht | ht
    · rcases h.topic with ht' | ht'
      · exact .inl (ht.trans ht')
      · exact .inr ht'
    · exact .inr ht
  · rw [hclis]; exact h.left
  · rw [hclis]; exact h.entered
  · rw [hclis, hadms]; exact h.deposed
  · rw [hadms]
    refine h.adms.imp_right fun ⟨y, hl, hy, honly, hgone⟩ => ⟨y, hl, hy, ?_, ?_⟩
    · rw [hadms]; exact honly
    · rw [hclis]; exact hgone

/-- A departure. -/
theorem ChLater.leave (h : ChLater s₀ x ar k ch d)
    (hwhy : (PartCmd ar ∧ y = x) ∨ (CmdIs ar "KICK" ∧ Op s₀ x k)) :
    ChLater s₀ x ar k ch (d.drop y) := by
  have hcmd : LeaveCmd ar := hwhy.symm.imp (·.1) (·.1)
  have hstay : ∀ q, q ∈ (d.drop y).clis ↔ q ≠ y ∧ q ∈ d.clis := fun q => by
    rw [clis_drop, mem_erase_iff]
  refine ⟨?modes, ?topic, fun q hq => ?left, fun q hq => h.entered q ((hstay q).mp hq).2,
    fun _ q hq => ?deposed, ?adms⟩
  case modes =>
    obtain ⟨hp, hi, ht, hl⟩ : (d.drop y).pass = d.pass ∧ (d.drop y).optI = d.optI ∧
        (d.drop y).optT = d.optT ∧ (d.drop y).limit = d.limit := modes_drop
    rw [hp, hi, ht, hl]
    exact h.modes
  case topic =>
    rw [topic_drop]
    exact h.topic
  case left =>
    rcases h.left q hq with hq | hq
    · by_cases hqy : q = y
      · rw [hqy]
        exact .inr hwhy
      · exact .inl ((hstay q).mpr ⟨hqy, hq⟩)
    · exact .inr hq
  case deposed =>
    rcases h.deposed hcmd q hq with hq | hq
    · by_cases hqy : q = y
      · exact .inr fun hq' => ((hstay q).mp hq').1 hqy
      · rcases adms_drop d y with ⟨hadm, -⟩ | ⟨hall, -⟩
        · rw [hadm, mem_erase_iff]
          exact .inl ⟨hqy, hq⟩
        · exact absurd (hall q hq) hqy
    · exact .inr fun hq' => hq ((hstay q).mp hq').2
  case adms =>
    rcases adms_drop d y with ⟨hadm, -⟩ | ⟨hall, z, hz, hzy, -, honly⟩
    · rw [hadm]
      rcases h.adms with hold | ⟨z, -, hz, honly, hgone⟩
      · exact .inl fun q hq => hold q (mem_erase_iff.mp hq).2
      · by_cases hzy : z = y
        · refine .inl fun q hq => ?_
          obtain ⟨hqy, hq⟩ := mem_erase_iff.mp hq
          exact absurd (((honly q).mp hq).trans hzy) hqy
        · refine .inr ⟨z, hcmd, hz, fun q => ?_, fun q hq hq' => hgone q hq ((hstay q).mp hq').2⟩
          rw [hadm, mem_erase_iff, honly]
          exact ⟨fun h => h.2, fun h => ⟨fun hqy => hzy (h ▸ hqy), h⟩⟩
    · -- the operators are gone, and a member takes their place
      refine .inr ⟨z, hcmd, ?_, honly, fun q hq hq' => ?_⟩
      · rcases h.entered z hz with hz | ⟨hj, hnp, -⟩
        · exact hz
        · rcases hcmd with hc | hc
          · exact absurd (hc.unique hj) (by decide)
          · exact absurd hc hnp
      · obtain ⟨hqy, hqd⟩ := (hstay q).mp hq'
        rcases h.deposed hcmd q hq with hq | hq
        · exact hqy (hall q hq)
        · exact hq hqd

theorem LeaveCmd.not {l : String} (h : LeaveCmd ar) (hcmd : CmdIs ar l)
    (hl : l ∈ ["MODE", "TOPIC"] ∨ (l = "JOIN" ∧ ¬ PartCmd ar)) : False := by
  rcases hl with hl | ⟨rfl, hnp⟩
  · rcases h with hc | hc | ⟨hc, -⟩ <;> have he := hcmd.unique hc <;> revert he <;>
      fin_cases hl <;> decide
  · rcases h with hc | hc
    · exact absurd (hc.unique hcmd) (by decide)
    · exact hnp hc

/-- One elementary change of the channel. -/
theorem ChEffect.later (heff : ChEffect s₀ x ar s k d d') (hget : ∀ n, s.getCli n = s₀.getCli n)
    (h : ChLater s₀ x ar k ch d) : ChLater s₀ x ar k ch d' := by
  cases heff with
  | join hcmd hnp _ _ _ =>
    have hno : ¬ LeaveCmd ar := fun hl => hl.not hcmd (.inr ⟨rfl, hnp⟩)
    refine ⟨h.modes, h.topic, fun q hq => ?_, fun q hq => ?_, fun hl => absurd hl hno, ?_⟩
    · exact (h.left q hq).imp_left fun hq => mem_insert_iff.mpr (.inr hq)
    · rcases mem_insert_iff.mp hq with hqx | hq
      · exact .inr ⟨hcmd, hnp, hqx⟩
      · exact h.entered q hq
    · refine h.adms.imp_right fun ⟨_, hl, _⟩ => absurd hl hno
  | leave y _ hwhy => exact h.leave hwhy
  | topic t hcmd hwhy _ => exact h.same rfl rfl (.inl ⟨rfl, rfl, rfl, rfl⟩) (.inr ⟨hcmd, hwhy⟩)
  | modes p i t l hcmd hop => exact h.same rfl rfl (.inr ⟨hcmd, hop⟩) (.inl rfl)
  | addAdm y a val hcmd hop hplus ha hval hy hyd =>
    have hno : ¬ LeaveCmd ar := fun hl => hl.not hcmd (.inl (by simp))
    refine ⟨h.modes, h.topic, h.left, h.entered, fun hl => absurd hl hno, ?_⟩
    rcases h.adms with hold | ⟨_, hl, _⟩
    · refine .inl fun q hq => ?_
      rcases mem_insert_iff.mp hq with rfl | hq
      · right
        refine ⟨hcmd, hop, hplus, ?_, a, val, ha, hval, (hget val).symm.trans hy⟩
        rcases h.entered q hyd with hq | ⟨hj, -⟩
        · exact hq
        · exact absurd (hj.unique hcmd) (by decide)
      · exact hold q hq
    · exact absurd hl hno
  | delAdm y hcmd hop =>
    have hno : ¬ LeaveCmd ar := fun hl => hl.not hcmd (.inl (by simp))
    refine ⟨h.modes, h.topic, h.left, h.entered, fun hl => absurd hl hno, ?_⟩
    rcases h.adms with hold | ⟨_, hl, _⟩
    · exact .inl fun q hq => hold q (mem_erase_iff.mp hq).2
    · exact absurd hl hno

/-- The changes of a channel are those of a command that is not `NICK`. -/
theorem ChEffect.not_nick (h : ChEffect s₀ x ar s k d d') : ¬ CmdIs ar "NICK" := by
  intro hn
  cases h with
  | join hc _ _ _ _ => exact absurd (hn.unique hc) (by decide)
  | leave y _ hwhy =>
    rcases hwhy with ⟨hc | ⟨hc, -⟩, -⟩ | ⟨hc, -⟩ <;> exact absurd (hn.unique hc) (by decide)
  | topic t hc _ _ => exact absurd (hn.unique hc) (by decide)
  | modes p i t l hc _ => exact absurd (hn.unique hc) (by decide)
  | addAdm y a val hc _ _ _ _ _ _ => exact absurd (hn.unique hc) (by decide)
  | delAdm y hc _ => exact absurd (hn.unique hc) (by decide)

/-- **A channel stays while a command is executed**, and becomes what `ChLater` says. -/
theorem Steps.chLater (hI : Inv s₀) (hch : s₀.chs[k]? = some ch) (h : Steps s₀ x ar s) :
    ∃ d, s.chs[k]? = some d ∧ ChLater s₀ x ar k ch d := by
  induction h with
  | refl => exact ⟨ch, hch, .refl ch⟩
  | tail hs heff ih =>
    obtain ⟨d, hd, hl⟩ := ih
    cases heff with
    | cli _ _ _ _ _ => exact ⟨d, hd, hl⟩
    | ch j e e' _ he heff =>
      rw [getElem?_chs_put he]
      by_cases hkj : k = j
      · subst hkj
        rw [hd] at he
        cases he
        exact ⟨e', if_pos rfl, heff.later (Steps.getCli hI heff.not_nick hs) hl⟩
      · exact ⟨d, by rw [if_neg hkj, hd], hl⟩
    | newCh j _ _ _ _ _ hfresh =>
      refine ⟨d, ?_, hl⟩
      rw [getElem?_chs_insert, if_neg, hd]
      rintro rfl
      exact hfresh k (mem_chs.mpr ⟨d, hd⟩) rfl
    | mark _ _ _ => exact ⟨d, hd, hl⟩

/-! ## The privileges -/

/-- **Channel privileges**: what a command of `x` that does not fail can change of a channel and of
the invitations to it, and what `x` was on the channel when the command began. -/
theorem privileges (hr : Reachable pass lfd cfg) (hx : cfg.srv.cliAt x = some c) (line : Str)
    (hok : cfg.srv.execCmd x (splitCmdToArgs line) = .ok s') (hch : cfg.srv.chs[k]? = some ch) :
    ∃ ch', s'.chs[k]? = some ch' ∧
      ((ch'.pass, ch'.limit, ch'.optI, ch'.optT) ≠ (ch.pass, ch.limit, ch.optI, ch.optT) →
        CmdIs (splitCmdToArgs line) "MODE" ∧ x ∈ ch.adms) ∧
      (ch'.topic ≠ ch.topic →
        CmdIs (splitCmdToArgs line) "TOPIC" ∧ x ∈ ch.clis ∧ (x ∈ ch.adms ∨ ch.optT = false)) ∧
      (∀ y ≠ x, (y ∈ ch.clis → y ∉ ch'.clis → CmdIs (splitCmdToArgs line) "KICK" ∧ x ∈ ch.adms) ∧
        (y ∉ ch.clis → y ∉ ch'.clis)) ∧
      (∀ y, y ∉ ch.adms → y ∈ ch'.adms →
        (CmdIs (splitCmdToArgs line) "MODE" ∧ str "+o" ∈ splitCmdToArgs line ∧ x ∈ ch.adms ∧
          y ∈ ch.clis ∧ ∃ a val, (splitCmdToArgs line)[3]? = some a ∧ val ∈ splitArgToSubargs a ∧
            cfg.srv.getCli val = y) ∨
        (LeaveCmd (splitCmdToArgs line) ∧ y ∈ ch.clis ∧ (∀ q, q ∈ ch'.adms ↔ q = y) ∧
          ∀ q ∈ ch.adms, q ∉ ch'.clis)) ∧
      ∀ y ≠ x, ∀ d d', cfg.srv.cliAt y = some d → s'.cliAt y = some d' → k ∉ d.invits →
        k ∈ d'.invits → ch.optI = true → x ∈ ch.adms := by
  have hI := hr.good.inv
  have hmid : Mid cfg.srv x (splitCmdToArgs line) c cfg.srv := .refl hI hx
  obtain ⟨-, hmid'⟩ := (execCmd_line hmid).of_ok hok
  obtain ⟨ch', hch', hl⟩ := hmid'.steps.chLater hI hch
  refine ⟨ch', hch', fun hne => ?modes, fun hne => ?topic, fun y hy => ⟨fun hin hout => ?left,
    fun hout hin => ?entered⟩, fun y hout hin => ?adms, fun y hy d d' hd hd' hout hin hopt => ?invits⟩
  case modes =>
    rcases hl.modes with ⟨h1, h2, h3, h4⟩ | ⟨hm, hop⟩
    · exact absurd (by rw [h1, h2, h3, h4]) hne
    · exact ⟨hm, (op_iff hch).mp hop⟩
  case topic =>
    rcases hl.topic with ht | ⟨ht, ch₀, hch₀, hwhy⟩
    · exact absurd ht hne
    · rw [hch] at hch₀
      cases hch₀
      exact ⟨ht, hwhy⟩
  case left =>
    rcases hl.left y hin with h | ⟨-, h⟩ | ⟨hk, hop⟩
    · exact absurd h hout
    · exact absurd h hy
    · exact ⟨hk, (op_iff hch).mp hop⟩
  case entered =>
    rcases hl.entered y hin with h | ⟨-, -, h⟩
    · exact hout h
    · exact hy h
  case adms =>
    rcases hl.adms with hold | ⟨z, hleave, hz, honly, hgone⟩
    · rcases hold y hin with h | ⟨hm, hop, hplus, hy, hval⟩
      · exact absurd h hout
      · exact .inl ⟨hm, hplus, (op_iff hch).mp hop, hy, hval⟩
    · have hyz : y = z := (honly y).mp hin
      subst hyz
      exact .inr ⟨hleave, hz, honly, hgone⟩
  case invits =>
    obtain ⟨e, he, hlater⟩ := hmid'.steps.later_of hd
    rw [hd'] at he
    cases he
    rcases hlater.invits k hin with h | ⟨-, ch₀, hch₀, -, hwhy⟩
    · exact absurd h hout
    · rw [hch] at hch₀
      cases hch₀
      exact hwhy hopt

/-- A creator sets a flag, and was an operator. -/
theorem privileges_mode : ∃ cfg s' ch ch', runServer (str "2") 3
      (connect 0 alice ++ say 0 0 4 (register "al" ++ str "JOIN #foo\r\n")) = .ok cfg ∧
    cfg.srv.execCmd alice.addr (splitCmdToArgs (str "MODE #foo +t")) = .ok s' ∧
    cfg.srv.chs[str "#foo"]? = some ch ∧ s'.chs[str "#foo"]? = some ch' ∧ ch'.optT ≠ ch.optT ∧
    alice.addr ∈ ch.adms := by
  obtain ⟨cfg, hrun, hP⟩ := exists_run (str "2") 3
    (connect 0 alice ++ say 0 0 4 (register "al" ++ str "JOIN #foo\r\n"))
    (fun cfg => (cfg.srv.cliAt alice.addr).isSome &&
      (cfg.srv.execCmd alice.addr (splitCmdToArgs (str "MODE #foo +t"))).toOption.any fun s' =>
        (cfg.srv.chs[str "#foo"]?).any fun ch =>
          (s'.chs[str "#foo"]?).all fun ch' => ch'.optT ≠ ch.optT) (by decide +kernel)
  simp only [Bool.and_eq_true, Option.isSome_iff_exists, Option.any_eq_true] at hP
  obtain ⟨⟨c, hc⟩, s', hok, ch, hch, hP⟩ := hP
  replace hok := eq_ok_of_toOption hok
  obtain ⟨ch', hch', hmodes, -⟩ := privileges ⟨_, hrun⟩ hc (str "MODE #foo +t") hok hch
  have hne : ch'.optT ≠ ch.optT := by simpa [hch'] using hP
  refine ⟨cfg, s', ch, ch', hrun, hok, hch, hch', hne, (hmodes fun heq => hne ?_).2⟩
  simp only [Prod.mk.injEq] at heq
  exact heq.2.2.2

end FtIrc
