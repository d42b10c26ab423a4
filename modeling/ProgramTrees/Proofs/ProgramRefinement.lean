import ProgramTrees.Proofs.OutputGrowth
import ProgramTrees.Proofs.Subterms

namespace ProgramTrees

variable {types : TypeMap} {budget number : Nat}

theorem yields_of_ok {e : Node Nat} (he : IsExpr e) {m s : Machine}
    (h : (e.eval types budget).run m = .ok () s) :
    Yields types e m.environment (.ok (s.value e.slot)) s.environment :=
  (yields_iff he).mpr (reading_eq_ok.mpr ⟨(), s, h, rfl, rfl⟩)

theorem yields_of_fault {e : Node Nat} (he : IsExpr e) {m s : Machine} {fault : Fault}
    (h : (e.eval types budget).run m = .error (.fault fault) s) :
    Yields types e m.environment (.error fault) s.environment :=
  (yields_iff he).mpr (reading_eq_error.mpr ⟨s, h, rfl⟩)

theorem settles_of_executes {n : Node Nat} {env env' : Environment} {outcome : Option Fault}
    (h : Executes types n env outcome env') {m : Machine} (hm : m.environment = env) :
    Settles types n m outcome env' := by
  induction h generalizing m with
  | assign h =>
    obtain ⟨_, s, hs, -, henv⟩ := reading_eq_ok.mp (eval_of_yields 0 _ (hm ▸ h))
    exact ⟨0, s, hs, henv⟩
  | assignFault h =>
    obtain ⟨s, hs, henv⟩ := reading_eq_error.mp (eval_of_yields 0 _ (hm ▸ h))
    exact ⟨0, s, hs, henv⟩
  | nothing number => exact ⟨0, m, by rw [eval_sequence]; rfl, hm⟩
  | next _ _ ih ihrest => exact .next (ih hm) fun _ => ihrest
  | sequenceFault _ ih => exact .fault_first (ih hm)
  | declare number ty name => exact ⟨0, m, by rw [Node.eval]; rfl, hm⟩
  | declareValue h =>
    obtain ⟨_, s, hs, rfl, rfl⟩ := reading_eq_ok.mp (eval_of_yields 0 _ (hm ▸ h))
    exact ⟨0, _, eval_declare_ok.mpr ⟨s, hs, rfl⟩, by simp⟩
  | declareFault h =>
    obtain ⟨s, hs, henv⟩ := reading_eq_error.mp (eval_of_yields 0 _ (hm ▸ h))
    exact ⟨0, s, eval_declare_error.mpr hs, henv⟩
  | print number text => exact ⟨0, m.print text, by rw [Node.eval]; rfl, by simp [hm]⟩
  | printValue h =>
    obtain ⟨_, s, hs, rfl, rfl⟩ := reading_eq_ok.mp (eval_of_yields 0 _ (hm ▸ h))
    exact ⟨0, _, eval_print_ok.mpr ⟨s, hs, rfl⟩, by simp⟩
  | printFault h =>
    obtain ⟨s, hs, henv⟩ := reading_eq_error.mp (eval_of_yields 0 _ (hm ▸ h))
    exact ⟨0, s, eval_print_error.mpr hs, henv⟩
  | loopEnd h hv => exact .loop_end (hm ▸ h) hv
  | conditionFault h => exact .condition_fault (hm ▸ h)
  | round h hv _ _ ihbody ihrest => exact .loop_round (hm ▸ h) hv (fun _ => ihbody) fun _ => ihrest
  | bodyFault h hv _ ihbody => exact .body_fault (hm ▸ h) hv fun _ => ihbody

theorem executes_of_rounds {condition body : Node Nat} (hcondition : IsExpr condition)
    (hbody : ∀ {m s : Machine} {outcome : Option Fault},
      (body.eval types budget).run m = ended outcome s →
        Executes types body m.environment outcome s.environment)
    {m s : Machine} {outcome : Option Fault} {done left : Nat}
    (h : (loopRounds types condition body budget done left).run m = ended outcome s) :
    Executes types (.loop number condition body) m.environment outcome s.environment := by
  induction left using Nat.strongRecOn generalizing m done with
  | ind left ih =>
    cases outcome with
    | none =>
      rcases repeatWhile_ok.mp h with ⟨t, ht, rfl⟩ | ⟨t, u, rest, hleft, ht, hu, hrest⟩
      · obtain ⟨ht, hv⟩ := loopTest_ok.mp ht
        rw [Machine.environment_endLoop]
        exact .loopEnd (yields_of_ok hcondition ht) hv.symm
      · obtain ⟨ht, hv⟩ := loopTest_ok.mp ht
        exact .round (yields_of_ok hcondition ht) hv.symm (hbody (show _ = ended none u from hu))
          (ih rest (by omega) hrest)
    | some fault =>
      rcases repeatWhile_error.mp h with
        ht | ⟨_, hstop, _⟩ | ⟨t, rest, hleft, ht, hu | ⟨u, hu, hrest⟩⟩
      · exact .conditionFault (yields_of_fault hcondition (loopTest_error.mp ht))
      · exact nomatch hstop
      · obtain ⟨ht, hv⟩ := loopTest_ok.mp ht
        have hround : (body.eval types budget).run t = ended (some fault) s := hu
        exact .bodyFault (yields_of_ok hcondition ht) hv.symm (hbody hround)
      · obtain ⟨ht, hv⟩ := loopTest_ok.mp ht
        exact .round (yields_of_ok hcondition ht) hv.symm (hbody (show _ = ended none u from hu))
          (ih rest (by omega) hrest)

theorem executes_of_evalAll {ss : List (Node Nat)}
    (ih : ∀ n ∈ ss, ∀ {m s : Machine} {outcome : Option Fault},
      (n.eval types budget).run m = ended outcome s →
        Executes types n m.environment outcome s.environment)
    {m s : Machine} {outcome : Option Fault}
    (h : (Node.evalAll types budget ss).run m = ended outcome s) :
    Executes types (.sequence number ss) m.environment outcome s.environment := by
  induction ss generalizing m with
  | nil =>
    cases outcome with
    | none =>
      obtain rfl : m = s := by simpa [Node.evalAll, ended] using h
      exact .nothing number
    | some fault => simp [Node.evalAll, ended] at h
  | cons n ss ih' =>
    have hn := fun {m s : Machine} {outcome : Option Fault} => @ih n (by simp) m s outcome
    have hss := fun {m : Machine} => @ih' (fun n' hn' => ih n' (by simp [hn'])) m
    cases outcome with
    | none =>
      obtain ⟨t, ht, hrest⟩ := evalAll_cons_ok.mp h
      exact .next (hn (show _ = ended none t from ht)) (hss hrest)
    | some fault =>
      rcases evalAll_cons_error.mp h with ht | ⟨t, ht, hrest⟩
      · exact .sequenceFault (hn (show _ = ended (some fault) s from ht))
      · exact .next (hn (show _ = ended none t from ht)) (hss hrest)

theorem executes_of_ended {n : Node Nat} (hn : IsStmt n) {m s : Machine}
    {outcome : Option Fault} (h : (n.eval types budget).run m = ended outcome s) :
    Executes types n m.environment outcome s.environment := by
  induction hn generalizing m s outcome with
  | assign number name hvalue =>
    cases outcome with
    | none => exact .assign (yields_of_ok (.assign number name hvalue) h)
    | some fault => exact .assignFault (yields_of_fault (.assign number name hvalue) h)
  | sequence number _ ih =>
    rw [eval_sequence] at h
    exact executes_of_evalAll ih h
  | @declare number ty name value hvalue =>
    cases value with
    | none =>
      cases outcome with
      | none =>
        obtain rfl : m = s := by simpa [Node.eval, ended] using h
        exact .declare number ty name
      | some fault => simp [Node.eval, ended] at h
    | some value =>
      cases outcome with
      | none =>
        obtain ⟨t, ht, rfl⟩ := eval_declare_ok.mp h
        rw [Machine.environment_store_name]
        exact .declareValue (yields_of_ok (hvalue value rfl) ht)
      | some fault =>
        exact .declareFault (yields_of_fault (hvalue value rfl) (eval_declare_error.mp h))
  | @print number text value hvalue =>
    cases value with
    | none =>
      cases outcome with
      | none =>
        obtain rfl : m.print text = s := by simpa [Node.eval, ended] using h
        exact .print number text
      | some fault => simp [Node.eval, ended] at h
    | some value =>
      cases outcome with
      | none =>
        obtain ⟨t, ht, rfl⟩ := eval_print_ok.mp h
        exact .printValue (yields_of_ok (hvalue value rfl) ht)
      | some fault =>
        exact .printFault (yields_of_fault (hvalue value rfl) (eval_print_error.mp h))
  | loop number hcondition _ ih =>
    rw [eval_loop] at h
    exact executes_of_rounds hcondition ih h

section Unfinished

theorem outOfRounds_of_expression {e : Node Nat} (he : IsExpr e) {m s : Machine} :
    (e.eval types budget).run m ≠ .error .outOfRounds s := by
  intro h
  obtain ⟨r, env, hr, -⟩ := yields_of_eval types budget he m
  rw [h] at hr
  cases hr

theorem underway_of_rounds {condition body : Node Nat} (hcondition : IsExpr condition)
    (hbody : IsStmt body)
    (ih : ∀ {m s : Machine}, (body.eval types budget).run m = .error .outOfRounds s →
      Underway types body m.environment s.environment)
    {m s : Machine} {done left : Nat}
    (h : (loopRounds types condition body budget done left).run m = .error .outOfRounds s) :
    Underway types (.loop number condition body) m.environment s.environment := by
  induction left generalizing m done with
  | zero =>
    rcases repeatWhile_error.mp h with ht | ⟨-, -, ht⟩ | ⟨_, _, hzero, -⟩
    · exact absurd (loopTest_error.mp ht) (outOfRounds_of_expression hcondition)
    · obtain ⟨ht, hv⟩ := loopTest_ok.mp ht
      exact .again (yields_of_ok hcondition ht) hv.symm
    · exact nomatch hzero
  | succ left ihleft =>
    rcases repeatWhile_error.mp h with ht | ⟨hzero, -⟩ | ⟨t, rest, hrest, ht, hstop⟩
    · exact absurd (loopTest_error.mp ht) (outOfRounds_of_expression hcondition)
    · exact nomatch hzero
    · obtain ⟨ht, hv⟩ := loopTest_ok.mp ht
      have htest := yields_of_ok hcondition ht
      rcases hstop with hround | ⟨u, hround, hlater⟩
      · exact .body htest hv.symm (ih hround)
      · obtain rfl := Nat.succ.inj hrest
        have hu : (body.eval types budget).run t = ended none u := hround
        exact .round ⟨_, _, htest, hv.symm, executes_of_ended hbody hu⟩ (ihleft hlater)

theorem underway_of_evalAll {ss : List (Node Nat)} (hss : ∀ n ∈ ss, IsStmt n)
    (ih : ∀ n ∈ ss, ∀ {m s : Machine}, (n.eval types budget).run m = .error .outOfRounds s →
      Underway types n m.environment s.environment)
    {m s : Machine} (h : (Node.evalAll types budget ss).run m = .error .outOfRounds s) :
    Underway types (.sequence number ss) m.environment s.environment := by
  induction ss generalizing m with
  | nil => simp [Node.evalAll] at h
  | cons n ss ih' =>
    rcases evalAll_cons_error.mp h with hfirst | ⟨t, ht, hrest⟩
    · exact .first (ih n (by simp) hfirst)
    · have hn : (n.eval types budget).run m = ended none t := ht
      exact .next (executes_of_ended (hss n (by simp)) hn)
        (ih' (fun n' hn' => hss n' (by simp [hn'])) (fun n' hn' => ih n' (by simp [hn'])) hrest)

/-- A run that has used up its rounds stands where a loop is about to do a round. -/
theorem underway_of_outOfRounds {n : Node Nat} (hn : IsStmt n) {m s : Machine}
    (h : (n.eval types budget).run m = .error .outOfRounds s) :
    Underway types n m.environment s.environment := by
  induction hn generalizing m s with
  | assign number name hvalue =>
    exact absurd h (outOfRounds_of_expression (.assign number name hvalue))
  | sequence number hss ih =>
    rw [eval_sequence] at h
    exact underway_of_evalAll hss ih h
  | @declare number ty name value hvalue =>
    cases value with
    | none => simp [Node.eval] at h
    | some value =>
      exact absurd (eval_declare_error.mp h) (outOfRounds_of_expression (hvalue value rfl))
  | @print number text value hvalue =>
    cases value with
    | none => simp [Node.eval] at h
    | some value =>
      exact absurd (eval_print_error.mp h) (outOfRounds_of_expression (hvalue value rfl))
  | loop number hcondition hbody ih =>
    rw [eval_loop] at h
    exact underway_of_rounds hcondition hbody ih h

/-- Runs from the state with enough rounds print the lines, and maybe more after them. Those of a
loop do so however many rounds it has done before. -/
def Prints (types : TypeMap) (lines : List String) : Node Nat → Machine → Prop
  | .loop _ condition body, m => ∃ least, ∀ budget done left, least ≤ budget → least ≤ left →
      lines <+:
        (stateAfter ((loopRounds types condition body budget done left).run m)).output.toList
  | n, m => ∃ least, ∀ budget, least ≤ budget →
      lines <+: (stateAfter ((n.eval types budget).run m)).output.toList

theorem Prints.eventually {lines : List String} {n : Node Nat} {m : Machine}
    (h : Prints types lines n m) :
    ∃ least, ∀ budget, least ≤ budget →
      lines <+: (stateAfter ((n.eval types budget).run m)).output.toList := by
  cases n with
  | loop number condition body =>
    obtain ⟨least, hrounds⟩ := h
    refine ⟨least, fun budget hle => ?_⟩
    rw [eval_loop]
    exact hrounds budget 0 budget hle hle
  | _ => exact h

/-- Whatever is printed before a loop does a round, runs with enough rounds print too. -/
theorem prints_of_underway {n : Node Nat} {env env' : Environment} (h : Underway types n env env')
    {m : Machine} (hm : m.environment = env) : Prints types env'.output.toList n m := by
  induction h generalizing m with
  | @first number s ss env env' _ ih =>
    obtain ⟨least, hs⟩ := (ih hm).eventually
    exact ⟨least, fun budget hle => (hs budget hle).trans (first_printed number m)⟩
  | @next number s ss env mid env' hs _ ih =>
    obtain ⟨b, t, hmid, ht⟩ := (settles_of_executes hs hm).eventually
    obtain ⟨b', hrest⟩ := (ih hmid).eventually
    refine ⟨max b b', fun budget hle => ?_⟩
    rw [run_sequence_of_ok (ht budget (by omega))]
    exact hrest budget (by omega)
  | again h hv =>
    obtain ⟨s, rfl, hs⟩ := loopTest_of_yields (hm ▸ h)
    rw [hv] at hs
    exact ⟨0, fun budget done left _ _ => test_printed (hs budget) done left⟩
  | body h hv _ ih =>
    obtain ⟨s, hmid, hs⟩ := loopTest_of_yields (hm ▸ h)
    rw [hv] at hs
    obtain ⟨least, hround⟩ := (ih hmid).eventually
    refine ⟨least + 1, fun budget done left hle hleft => ?_⟩
    obtain ⟨left, rfl⟩ : ∃ k, left = k + 1 := ⟨left - 1, by omega⟩
    exact (hround budget (by omega)).trans (round_printed (hs budget) done left)
  | round hround _ ih =>
    obtain ⟨v, mid, h, hv, hbody⟩ := hround
    obtain ⟨s, hmid, hs⟩ := loopTest_of_yields (hm ▸ h)
    rw [hv] at hs
    obtain ⟨b, t, henv, ht⟩ := (settles_of_executes hbody hmid).eventually
    obtain ⟨b', hrest⟩ := ih henv
    refine ⟨max b b' + 1, fun budget done left hle hleft => ?_⟩
    obtain ⟨left, rfl⟩ : ∃ k, left = k + 1 := ⟨left - 1, by omega⟩
    rw [loopRounds, repeatWhile_of_round (hs budget) (ht budget (by omega))]
    exact hrest budget (done + 1) left (by omega) (by omega)

end Unfinished

theorem endless_iff {n : Node Nat} (hn : IsStmt n) {m : Machine} :
    Endless types n m ↔ ∀ outcome env, ¬ Executes types n m.environment outcome env := by
  constructor
  · intro h outcome env hexecutes
    obtain ⟨budget, s, hs, -⟩ := settles_of_executes hexecutes rfl
    exact h budget (hs ▸ finished_ended outcome s)
  · intro h budget hfinished
    obtain ⟨outcome, s, hs⟩ := finished_iff.mp hfinished
    exact h outcome s.environment (executes_of_ended hn hs)

theorem endless_of_rounds {condition body : Node Nat} {envs : Nat → Environment}
    (hround : ∀ i, Round types condition body (envs i) (envs (i + 1))) {m : Machine}
    (hm : m.environment = envs 0) : Endless types (.loop number condition body) m := by
  intro budget
  suffices h : ∀ left i done (m : Machine), m.environment = envs i →
      ¬ Finished ((loopRounds types condition body budget done left).run m) by
    rw [eval_loop]
    exact h budget 0 0 m hm
  intro left
  induction left with
  | zero =>
    intro i done m hm hfinished
    obtain ⟨v, mid, h, hv, -⟩ := hround i
    obtain ⟨s, -, hs⟩ := loopTest_of_yields (hm ▸ h)
    obtain ⟨_, h, -⟩ := finished_round (hv ▸ hs budget) hfinished
    exact nomatch h
  | succ left ih =>
    intro i done m hm hfinished
    obtain ⟨v, mid, h, hv, hbody⟩ := hround i
    obtain ⟨s, hmid, hs⟩ := loopTest_of_yields (hm ▸ h)
    obtain ⟨before, hleft, hb, hafter⟩ := finished_round (hv ▸ hs budget) hfinished
    obtain ⟨t, ht, hnext⟩ := (settles_of_executes hbody hmid).of_finished hb
    obtain rfl := Nat.succ.inj hleft
    exact ih (i + 1) _ t hnext (hafter t ht)

theorem endless_of_diverges {n : Node Nat} {env : Environment} (h : Diverges types n env)
    {m : Machine} (hm : m.environment = env) : Endless types n m := by
  induction h generalizing m with
  | first _ ih => exact fun budget hfinished => ih hm budget (finished_first hfinished)
  | next h _ ih => exact .next (settles_of_executes h hm) fun _ => ih
  | body h hv _ ih => exact .loop_body (hm ▸ h) hv fun _ => ih
  | round hround _ ih =>
    obtain ⟨v, mid, h, hv, hbody⟩ := hround
    exact .loop_round (hm ▸ h) hv (fun _ => settles_of_executes hbody) fun _ => ih
  | forever envs hround => exact endless_of_rounds hround hm

/-- A sequence without an outcome has a statement without one, and the statements before that one
come to their end. -/
theorem diverges_of_all {ss : List (Node Nat)}
    (ih : ∀ n ∈ ss, ∀ {m : Machine},
      (∀ outcome env, ¬ Executes types n m.environment outcome env) →
        Diverges types n m.environment)
    (hss : ∀ n ∈ ss, IsStmt n) {m : Machine}
    (h : ∀ outcome env, ¬ Executes types (.sequence number ss) m.environment outcome env) :
    Diverges types (.sequence number ss) m.environment := by
  induction ss generalizing m with
  | nil => exact absurd (.nothing number) (h none m.environment)
  | cons n ss ih' =>
    rcases settles_or_endless types n m with ⟨outcome, _, budget, s, hs, rfl⟩ | hn
    · have hfirst := executes_of_ended (hss n (by simp)) hs
      cases outcome with
      | some fault => exact absurd (.sequenceFault hfirst) (h (some fault) s.environment)
      | none =>
        refine .next hfirst (ih' (fun n' hn' => ih n' (by simp [hn']))
          (fun n' hn' => hss n' (by simp [hn'])) ?_)
        exact fun outcome env hrest => h outcome env (.next hfirst hrest)
    · exact .first (ih n (by simp) ((endless_iff (hss n (by simp))).mp hn))

/-- A loop without an outcome has a round that goes on forever or another round after each. -/
theorem diverges_of_loop {condition body : Node Nat} (hcondition : IsExpr condition)
    (hbody : IsStmt body)
    (ih : ∀ {m : Machine}, (∀ outcome env, ¬ Executes types body m.environment outcome env) →
      Diverges types body m.environment) {m : Machine}
    (h : ∀ outcome env,
      ¬ Executes types (.loop number condition body) m.environment outcome env) :
    Diverges types (.loop number condition body) m.environment := by
  let Stuck (m : Machine) : Prop :=
    (∀ outcome env, ¬ Executes types (.loop number condition body) m.environment outcome env) ∧
      ¬ Diverges types (.loop number condition body) m.environment
  have hstep : ∀ x : { m // Stuck m }, ∃ y : { m // Stuck m },
      Round types condition body x.1.environment y.1.environment := by
    rintro ⟨m, h, hdiverges⟩
    obtain ⟨r, env, hr, hy⟩ := yields_of_eval types 0 hcondition m
    cases r with
    | error fault => exact absurd (.conditionFault hy) (h (some fault) env)
    | ok v =>
      cases hv : Value.keepsLooping v with
      | false => exact absurd (.loopEnd hy hv) (h none env)
      | true =>
        obtain ⟨_, s, -, -, rfl⟩ := reading_eq_ok.mp hr
        rcases settles_or_endless types body s with ⟨outcome, _, budget, t, ht, rfl⟩ | hs
        · have hround := executes_of_ended hbody ht
          cases outcome with
          | some fault => exact absurd (.bodyFault hy hv hround) (h (some fault) t.environment)
          | none =>
            refine ⟨⟨t, ?_, ?_⟩, v, s.environment, hy, hv, hround⟩
            · exact fun outcome env hrest => h outcome env (.round hy hv hround hrest)
            · exact fun hrest => hdiverges (.round ⟨v, s.environment, hy, hv, hround⟩ hrest)
        · exact absurd (.body hy hv (ih ((endless_iff hbody).mp hs))) hdiverges
  by_cases hdiverges : Diverges types (.loop number condition body) m.environment
  · exact hdiverges
  · obtain ⟨next, hnext⟩ := Classical.axiomOfChoice hstep
    let run (i : Nat) : { m // Stuck m } := i.rec ⟨m, h, hdiverges⟩ fun _ => next
    exact .forever (fun i => (run i).1.environment) fun i => hnext (run i)

theorem diverges_of_not_executes {n : Node Nat} (hn : IsStmt n) {m : Machine}
    (h : ∀ outcome env, ¬ Executes types n m.environment outcome env) :
    Diverges types n m.environment := by
  induction hn generalizing m with
  | assign number name hvalue =>
    obtain ⟨r, env, -, hy⟩ :=
      yields_of_eval types 0 (.assign number name hvalue) m
    cases r with
    | ok v => exact absurd (.assign hy) (h none env)
    | error fault => exact absurd (.assignFault hy) (h (some fault) env)
  | sequence number hss ih => exact diverges_of_all ih hss h
  | @declare number ty name value hvalue =>
    cases value with
    | none => exact absurd (.declare number ty name) (h none m.environment)
    | some value =>
      obtain ⟨r, env, -, hy⟩ :=
        yields_of_eval types 0 (hvalue value rfl) m
      cases r with
      | ok v => exact absurd (.declareValue hy) (h none (env.assign name v))
      | error fault => exact absurd (.declareFault hy) (h (some fault) env)
  | @print number text value hvalue =>
    cases value with
    | none => exact absurd (.print number text) (h none (m.environment.print text))
    | some value =>
      obtain ⟨r, env, -, hy⟩ :=
        yields_of_eval types 0 (hvalue value rfl) m
      cases r with
      | ok v => exact absurd (.printValue hy) (h none (env.print (text ++ Value.text v)))
      | error fault => exact absurd (.printFault hy) (h (some fault) env)
  | loop number hcondition hbody ih => exact diverges_of_loop hcondition hbody ih h

theorem runFrom_iff {n : Node Nat} {m s : Machine} {outcome : Option Fault} :
    (n.eval types budget).runFrom m = ⟨s, outcome.map .fault⟩ ↔
      (n.eval types budget).run m = ended outcome s := by
  unfold Eval.runFrom
  rcases h : (n.eval types budget).run m with ⟨_, t⟩ | ⟨_ | _, t⟩ <;>
    cases outcome <;> simp [ended]
  exact and_comm

theorem runFrom_outOfRounds_iff {n : Node Nat} {m s : Machine} :
    (n.eval types budget).runFrom m = ⟨s, some .outOfRounds⟩ ↔
      (n.eval types budget).run m = .error .outOfRounds s := by
  unfold Eval.runFrom
  rcases (n.eval types budget).run m with ⟨_, t⟩ | ⟨_ | _, t⟩ <;> simp

theorem outOfRounds_iff {n : Node Nat} {m : Machine} :
    ((n.eval types budget).runFrom m).stop = some .outOfRounds ↔
      ¬ Finished ((n.eval types budget).run m) := by
  unfold Eval.runFrom
  rcases h : (n.eval types budget).run m with ⟨_, t⟩ | ⟨_ | _, t⟩ <;> simp [Finished]

/-- Runs refine the semantics on environments, whatever the types and the tree. An outcome of the
program, its end or a fault, is that of every run with enough rounds, and leaves the same variables
and lines. The program diverges exactly if every run uses up its rounds; each of these runs stands
where a loop is about to do a round, and what is printed up to such a place all runs with enough
rounds print first. After each visit of an expression its place holds exactly the value that the
expression yields there. -/
theorem runs_refine_environments {p : Node Nat} (hp : IsStmt p) (types : TypeMap) (m : Machine) :
    (∀ outcome env, Executes types p m.environment outcome env ↔
      ∃ least s, s.environment = env ∧ ∀ budget, least ≤ budget →
        (p.eval types budget).runFrom m = ⟨s, outcome.map .fault⟩) ∧
    (Diverges types p m.environment ↔
      ∀ budget, ((p.eval types budget).runFrom m).stop = some .outOfRounds) ∧
    (∀ budget s, (p.eval types budget).runFrom m = ⟨s, some .outOfRounds⟩ →
      Underway types p m.environment s.environment) ∧
    (∀ env, Underway types p m.environment env → ∃ least, ∀ budget, least ≤ budget →
      env.output.toList <+: ((p.eval types budget).runFrom m).machine.output.toList) ∧
    ∀ e, IsExpr e → ∀ budget s t, (e.eval types budget).run s = .ok () t → ∀ v env,
      Yields types e s.environment (.ok v) env ↔ v = t.value e.slot ∧ env = t.environment := by
  refine ⟨?_, ?_, ?_, ?_, ?_⟩
  · intro outcome env
    constructor
    · intro h
      obtain ⟨least, s, henv, hs⟩ := (settles_of_executes h rfl).eventually
      exact ⟨least, s, henv, fun budget hle => runFrom_iff.mpr (hs budget hle)⟩
    · rintro ⟨least, s, rfl, hs⟩
      exact executes_of_ended hp (runFrom_iff.mp (hs least (Nat.le_refl least)))
  · constructor
    · intro h budget
      exact outOfRounds_iff.mpr (endless_of_diverges h rfl budget)
    · intro h
      exact diverges_of_not_executes hp
        ((endless_iff hp).mp fun budget => outOfRounds_iff.mp (h budget))
  · intro budget s h
    exact underway_of_outOfRounds hp (runFrom_outOfRounds_iff.mp h)
  · intro env h
    obtain ⟨least, hlines⟩ := (prints_of_underway h rfl).eventually
    refine ⟨least, fun budget hle => ?_⟩
    rw [machine_runFrom]
    exact hlines budget hle
  · intro e he budget s t hrun v env
    rw [yields_iff he, hrun]
    simp [reading, @eq_comm _ v, @eq_comm _ env]

/-- `i + (i = i - 2)`, in which the occurrences of `i` are one node. -/
def sumMeanwhile : Node Nat :=
  let i : Node Nat := .var 2 "i"
  .apply 6 .plus2 [i, .assign 7 "i" (.apply 8 .minus2 [i, .int 9 2])]

/-- Prints `i + (i = i - 2)` for as long as `i` is at least zero. -/
def sumsMeanwhile : Node Nat :=
  .sequence 0 [.declare 1 .int "i" (some (.int 3 1)),
    .loop 4 (.var 2 "i") (.print 5 "sum: " (some sumMeanwhile))]

theorem sumMeanwhile_isExpr : IsExpr sumMeanwhile :=
  .pair 6 .plus2 (.var 2 "i") (.assign 7 "i" (.pair 8 .minus2 (.var 2 "i") (.int 9 2)))

theorem sumsMeanwhile_isStmt : IsStmt sumsMeanwhile := by
  refine .sequence 0 ?_
  simp only [List.mem_cons, List.not_mem_nil, or_false, forall_eq_or_imp, forall_eq]
  refine ⟨.declare 1 .int "i" ?_, .loop 4 (.var 2 "i") (.print 5 "sum: " ?_)⟩
  · simpa using .int 3 1
  · simpa using sumMeanwhile_isExpr

theorem sumsMeanwhile_refines :
    IsStmt sumsMeanwhile ∧
    (∃ env, env.output = #["sum: 0"] ∧ env.value "i" = some (.int (-1)) ∧
      Executes (fun _ => some .int) sumsMeanwhile (Machine.environment {}) none env) ∧
    ¬ Diverges (fun _ => some .int) sumsMeanwhile (Machine.environment {}) ∧
    ∃ env, env.value "i" = some (.int (-1)) ∧
      Yields (fun _ => some .int) sumMeanwhile
        (({} : Machine).store (.name "i") (some (.int 1))).environment
        (.ok (some (.int 0))) env := by
  obtain ⟨hexecutes, hdiverges, -, -, hyields⟩ :=
    runs_refine_environments sumsMeanwhile_isStmt (fun _ => some .int) {}
  refine ⟨sumsMeanwhile_isStmt, ?_, ?_, ?_⟩
  · obtain ⟨s, hs, hout, hi⟩ : ∃ s,
        (sumsMeanwhile.eval (fun _ => some .int) 1).run {} = ended none s ∧
          s.output = #["sum: 0"] ∧ s.value (.name "i") = some (.int (-1)) := by
      refine ⟨_, rfl, ?_, ?_⟩ <;> decide
    obtain ⟨least, t, henv, ht⟩ := Settles.eventually ⟨1, s, hs, rfl⟩
    exact ⟨s.environment, hout, hi, (hexecutes none s.environment).mpr
      ⟨least, t, henv, fun budget hle => runFrom_iff.mpr (ht budget hle)⟩⟩
  · intro h
    have hgivenUp := hdiverges.mp h 1
    revert hgivenUp
    decide
  · refine ⟨_, ?_, (hyields sumMeanwhile sumMeanwhile_isExpr 0 _ _ rfl _ _).mpr ⟨?_, rfl⟩⟩ <;>
      decide

end ProgramTrees
