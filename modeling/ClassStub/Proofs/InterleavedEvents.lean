import ClassStub.Proofs.AssemblyFailures
import ClassStub.Proofs.AssemblyProtocol

/-! # Events in another order

Of links and annotations an assembly takes notes, which do not touch its pool until the closing
event. What it makes of the members of a class is the same whatever notes there are, so links and
annotations may come anywhere between the header and the closing event: each member is accepted or
refused as before, and the class file is the same. -/

namespace ClassStub

/-- An assembly takes notes of an event, and does nothing else about it before the closing event. -/
def ClassEvent.isNoted : ClassEvent → Bool
  | enclosing _ | annotated _ | typeAnnotated _ | nested _ => true
  | header _ | field _ | method _ | finish => false

theorem ClassEvent.kind_ne_of_isNoted {event : ClassEvent} (h : event.isNoted) :
    event.kind ≠ .header := by
  intro hkind
  cases event <;> simp [isNoted, kind] at h hkind

/-! ## Outcomes -/

namespace Consumer

variable {σ : Type} {visit : Consumer σ} {state : σ}

/-- The events of an attempt, each with how it ended. -/
def outcomes (visit : Consumer σ) (state : σ) :
    List ClassEvent → List (ClassEvent × Except StubError Unit)
  | [] => []
  | event :: events =>
    (event, ((visit event).outcome state).1) :: outcomes visit (visit.after state event) events

theorem outcomes_append (events others : List ClassEvent) :
    visit.outcomes state (events ++ others) =
      visit.outcomes state events ++ visit.outcomes (visit.attempt state events) others := by
  induction events generalizing state with
  | nil => rfl
  | cons event events ih =>
    rw [List.cons_append, outcomes, ih, outcomes, attempt_cons, List.cons_append]

/-- A run is an attempt that ends with the first error. -/
theorem outcome_forM_bind {α : Type} (events : List ClassEvent) (next : σ → Except StubError α) :
    (do
      let (result, final) := (events.forM visit).outcome state
      result
      next final) = (do
      (visit.outcomes state events).forM Prod.snd
      next (visit.attempt state events)) := by
  induction events generalizing state with
  | nil => rfl
  | cons event events ih =>
    have hrun : ((event :: events).forM visit) state =
        EStateM.bind (visit event) (fun _ => events.forM visit) state := rfl
    rw [outcomes, attempt_cons]
    unfold after
    unfold Run.outcome at ih ⊢
    rw [hrun]
    unfold EStateM.bind
    cases visit event state with
    | ok result next => exact ih
    | error error next => rfl

/-- Whether a run succeeds does not depend on events that are accepted anyway. -/
theorem forM_filter_of_ok {outcomes : List (ClassEvent × Except StubError Unit)}
    {counts : ClassEvent × Except StubError Unit → Bool}
    (h : ∀ item ∈ outcomes, counts item = false → item.2 = .ok ()) :
    (outcomes.filter counts).forM Prod.snd = outcomes.forM Prod.snd := by
  induction outcomes with
  | nil => rfl
  | cons item outcomes ih =>
    obtain ⟨hitem, h⟩ := List.forall_mem_cons.1 h
    have hcons : ∀ items : List (ClassEvent × Except StubError Unit),
        (item :: items).forM Prod.snd = item.2 >>= fun _ => items.forM Prod.snd := fun _ => rfl
    cases hcounts : counts item with
    | true => rw [List.filter_cons_of_pos hcounts, hcons, hcons, ih h]
    | false =>
      rw [List.filter_cons_of_neg (by simp [hcounts]), hcons, hitem hcounts, ih h]
      rfl

end Consumer

/-! ## Notes -/

/-- Two classes have the same links, and the same annotations of each visibility. -/
structure ClassDescription.NotesAlike (told other : ClassDescription) : Prop where
  enclosing : told.enclosing = other.enclosing
  nested : told.nested = other.nested
  annotations : ∀ visible, told.annotations.filter (·.visible == visible) =
    other.annotations.filter (·.visible == visible)
  typeAnnotations : ∀ visible, told.typeAnnotations.filter (·.visible == visible) =
    other.typeAnnotations.filter (·.visible == visible)

namespace Assembly

/-- The assembly with notes of the links and annotations of a class in place of its own. -/
def noting (assembly : Assembly) (told : ClassDescription) : Assembly :=
  { assembly with
    enclosing := told.enclosing
    annotations := told.annotations.toArray
    typeAnnotations := told.typeAnnotations.toArray
    nested := told.nested.toArray }

end Assembly

/-- A result with a changed state. -/
def Run.mapState {σ α : Type} (f : σ → σ) :
    EStateM.Result StubError σ α → EStateM.Result StubError σ α
  | .ok value state => .ok value (f state)
  | .error error state => .error error (f state)

namespace Assembly

/-- From an assembly with notes, a run does what another one does from the assembly as it was, and
leaves the notes as they are. -/
def Follows {α : Type} (told : ClassDescription) (run other : Run Assembly α) : Prop :=
  ∀ assembly : Assembly, run (assembly.noting told) = Run.mapState (·.noting told) (other assembly)

variable {told : ClassDescription}

namespace Follows

variable {α β : Type}

theorem bind {run other : Run Assembly α} {next others : α → Run Assembly β}
    (hrun : Follows told run other) (hnext : ∀ value, Follows told (next value) (others value)) :
    Follows told (run >>= next) (other >>= others) := by
  intro assembly
  change EStateM.bind run next _ = Run.mapState _ (EStateM.bind other others _)
  unfold EStateM.bind
  rw [hrun assembly]
  cases other assembly with
  | ok value reached => exact hnext value reached
  | error error reached => rfl

theorem get_bind {next others : Assembly → Run Assembly β}
    (hnext : ∀ state : Assembly, Follows told (next (state.noting told)) (others state)) :
    Follows told (get >>= next) (get >>= others) :=
  fun assembly => hnext assembly assembly

/-- A run may look at the notes where the other one knows them. -/
theorem get_bind_left {next : Assembly → Run Assembly β} {other : Run Assembly β}
    (hnext : ∀ state : Assembly, Follows told (next (state.noting told)) other) :
    Follows told (get >>= next) other :=
  fun assembly => hnext assembly assembly

theorem modify {f : Assembly → Assembly}
    (h : ∀ state : Assembly, f (state.noting told) = (f state).noting told) :
    Follows told (modify f : Run Assembly PUnit) (modify f) :=
  fun assembly => congrArg (EStateM.Result.ok PUnit.unit) (h assembly)

theorem throw (error : StubError) :
    Follows told (throw error : Run Assembly α) (throw error) :=
  fun _ => rfl

theorem interning (action : PoolM α) :
    Follows told (interning action) (Assembly.interning action) := by
  intro assembly
  unfold Assembly.interning
  dsimp only [noting]
  cases action assembly.pool <;> rfl

theorem nestedAttribute (links : List NestedLink) :
    Follows told (nestedAttribute links) (Assembly.nestedAttribute links) := by
  unfold Assembly.nestedAttribute
  split
  · exact .interning _
  · exact .throw _

end Follows

/-- The closing event with notes. -/
def finishNoting (told : ClassDescription) : Run Assembly Unit := do
  let common ← interning (commonAttributes (← get).header)
  let enclosing ← interning (Attribute.optional told.enclosing Attribute.enclosing)
  let nested ← nestedAttribute told.nested
  let annotations ← interning (Attribute.annotations told.annotations)
  let typeAnnotations ← interning (Attribute.typeAnnotations told.typeAnnotations)
  modify fun assembly => { assembly with
    attributes := common ++ enclosing ++ nested ++ annotations ++ typeAnnotations
    finished := true }

theorem follows_visitFinish (told : ClassDescription) :
    Follows told visitFinish (finishNoting told) := by
  unfold visitFinish finishNoting
  refine .get_bind fun _ => .bind (.interning _) fun common => ?_
  refine .get_bind_left fun _ => .bind (.interning _) fun enclosing => ?_
  refine .get_bind_left fun _ => .bind (.nestedAttribute _) fun nested => ?_
  refine .get_bind_left fun _ => .bind (.interning _) fun annotations => ?_
  exact .get_bind_left fun _ => .bind (.interning _) fun typeAnnotations => .modify fun _ => rfl

/-! ## Members and notes -/

/-- The assembly takes events of all kinds but a header. -/
def IsOpen (assembly : Assembly) : Prop :=
  assembly.header.isSome ∧ assembly.finished = false

variable {assembly : Assembly} {event : ClassEvent}

theorem IsOpen.visit (h : assembly.IsOpen) (hkind : event.kind ≠ .header) :
    visit event assembly = take event assembly :=
  visit_of_refusal_none ((refusal?_of_ne hkind).2 h)

/-- An open assembly accepts what it only takes notes of. -/
theorem IsOpen.visit_noted (h : assembly.IsOpen) (hevent : event.isNoted) :
    Assembly.visit event (assembly.noting told) = .ok () (assembly.noting (told.add event)) := by
  have hopen : (assembly.noting told).IsOpen := h
  rw [hopen.visit (ClassEvent.kind_ne_of_isNoted hevent)]
  unfold noting
  cases event with
  | enclosing link => rfl
  | annotated item => simp only [ClassDescription.add, ← List.push_toArray]; rfl
  | typeAnnotated item => simp only [ClassDescription.add, ← List.push_toArray]; rfl
  | nested link => simp only [ClassDescription.add, ← List.push_toArray]; rfl
  | _ => cases hevent

/-- What is neither a header nor the closing event nor noted is a member. -/
theorem follows_take (hheader : event.kind ≠ .header) (hfinish : event.kind ≠ .finish)
    (hnoted : event.isNoted = false) : Follows told (take event) (take event) := by
  cases event with
  | field field => exact .bind (.interning _) fun _ => .modify fun _ => rfl
  | method method => exact .get_bind fun _ => .bind (.interning _) fun _ => .modify fun _ => rfl
  | header header => exact absurd rfl hheader
  | finish => exact absurd rfl hfinish
  | _ => cases hnoted

/-- A run leaves the header as it is, and does not close the assembly. -/
def KeepsOpen {α : Type} (run : Run Assembly α) : Prop :=
  ∀ assembly : Assembly, assembly.IsOpen →
    run.Ensures assembly (fun _ next => next.IsOpen) fun _ next => next.IsOpen

theorem keepsOpen_interning {α : Type} (action : PoolM α) : KeepsOpen (interning action) := by
  intro assembly h
  unfold Run.Ensures interning
  dsimp only
  cases action assembly.pool <;> exact h

theorem keepsOpen_take (hheader : event.kind ≠ .header) (hfinish : event.kind ≠ .finish) :
    KeepsOpen (take event) := by
  intro assembly h
  cases event with
  | header header => exact absurd rfl hheader
  | finish => exact absurd rfl hfinish
  | field field => exact (keepsOpen_interning _ assembly h).bind fun _ _ hnext => hnext
  | method method =>
    exact Run.ensures_get_bind ((keepsOpen_interning _ assembly h).bind fun _ _ hnext => hnext)
  | _ => exact h

theorem IsOpen.after (h : assembly.IsOpen) (hheader : event.kind ≠ .header)
    (hfinish : event.kind ≠ .finish) : (Assembly.visit.after assembly event).IsOpen := by
  have hnext := keepsOpen_take hheader hfinish assembly h
  unfold Consumer.after Run.outcome
  rw [h.visit hheader]
  unfold Run.Ensures at hnext
  cases hrun : take event assembly <;> rw [hrun] at hnext <;> exact hnext

theorem Follows.outcome {run other : Run Assembly Unit} (h : Follows told run other)
    (assembly : Assembly) : run.outcome (assembly.noting told) =
      ((other.outcome assembly).1, (other.outcome assembly).2.noting told) := by
  unfold Run.outcome
  rw [h assembly]
  cases other assembly <;> rfl

/-- An open assembly with notes takes a member as it does without. -/
theorem IsOpen.outcome_member (h : assembly.IsOpen) (hheader : event.kind ≠ .header)
    (hfinish : event.kind ≠ .finish) (hnoted : event.isNoted = false) :
    (Assembly.visit event).outcome (assembly.noting told) =
      (((Assembly.visit event).outcome assembly).1,
        (Assembly.visit.after assembly event).noting told) := by
  have hnoting : (assembly.noting told).IsOpen := h
  have htake : Follows told (take event) (take event) := follows_take hheader hfinish hnoted
  have hfollows := htake.outcome assembly
  unfold Consumer.after
  unfold Run.outcome at hfollows ⊢
  rwa [hnoting.visit hheader, h.visit hheader]

/-- Between the header and the closing event an assembly takes members as it does without the notes
between them, and the notes add up. -/
theorem IsOpen.attempt_noting {middle : List ClassEvent}
    (hmiddle : ∀ event ∈ middle, event.kind ≠ .header ∧ event.kind ≠ .finish)
    (h : assembly.IsOpen) :
    Assembly.visit.attempt (assembly.noting told) middle =
        (Assembly.visit.attempt assembly (middle.filter (!·.isNoted))).noting
          (middle.foldl ClassDescription.add told)
      ∧ (Assembly.visit.outcomes (assembly.noting told) middle).filter (!·.1.isNoted) =
        Assembly.visit.outcomes assembly (middle.filter (!·.isNoted)) := by
  induction middle generalizing assembly told with
  | nil => exact ⟨rfl, rfl⟩
  | cons event middle ih =>
    obtain ⟨⟨hheader, hfinish⟩, hmiddle⟩ := List.forall_mem_cons.1 hmiddle
    cases hnoted : event.isNoted with
    | true =>
      have hvisit : Assembly.visit event (assembly.noting told) = .ok () _ := h.visit_noted hnoted
      rw [Consumer.attempt_cons_of_ok hvisit, Consumer.outcomes, Consumer.after_of_ok hvisit]
      simpa [hnoted] using ih hmiddle h
    | false =>
      have hvisit : (Assembly.visit event).outcome (assembly.noting told) = _ :=
        h.outcome_member hheader hfinish hnoted
      have hadd : (Assembly.visit.after assembly event).noting told =
          (Assembly.visit.after assembly event).noting (told.add event) := by
        cases event <;> first | rfl | cases hnoted
      have hafter := congrArg Prod.snd hvisit
      rw [Consumer.attempt_cons, Consumer.outcomes, hvisit, Consumer.after, hafter, hadd]
      simpa [hnoted, Consumer.outcomes] using ih hmiddle (h.after hheader hfinish)

/-! ## Notes that come to the same -/

variable {other : ClassDescription}

theorem finishNoting_eq (h : told.NotesAlike other) : finishNoting told = finishNoting other := by
  unfold finishNoting Attribute.annotations Attribute.annotationsOf Attribute.typeAnnotations
    Attribute.typeAnnotationsOf
  simp only [h.enclosing, h.nested, h.annotations, h.typeAnnotations]

theorem toClassFile_noting (h : told.NotesAlike other) :
    (assembly.noting told).toClassFile = (assembly.noting other).toClassFile := by
  unfold noting toClassFile checkCounts build
  rw [h.nested]

/-- The closing event comes to the same. -/
theorem IsOpen.finish_alike (h : assembly.IsOpen) (halike : told.NotesAlike other) :
    ((Assembly.visit .finish).outcome (assembly.noting told)).1 =
        ((Assembly.visit .finish).outcome (assembly.noting other)).1
      ∧ (Assembly.visit.after (assembly.noting told) .finish).toClassFile =
        (Assembly.visit.after (assembly.noting other) .finish).toClassFile := by
  have hfinish : ∀ told, (Assembly.visit .finish).outcome (assembly.noting told) =
      (((finishNoting told).outcome assembly).1,
        ((finishNoting told).outcome assembly).2.noting told) := by
    intro told
    have hnoting : (assembly.noting told).IsOpen := h
    have hfollows := (follows_visitFinish told).outcome assembly
    have hkind : ClassEvent.finish.kind ≠ .header := nofun
    unfold Run.outcome at hfollows ⊢
    rwa [hnoting.visit hkind]
  unfold Consumer.after
  rw [hfinish, hfinish, finishNoting_eq halike]
  exact ⟨rfl, toClassFile_noting halike⟩

theorem IsOpen.attempt {middle : List ClassEvent}
    (hmiddle : ∀ event ∈ middle, event.kind ≠ .header ∧ event.kind ≠ .finish)
    (h : assembly.IsOpen) : (Assembly.visit.attempt assembly middle).IsOpen := by
  induction middle generalizing assembly with
  | nil => exact h
  | cons event middle ih =>
    obtain ⟨⟨hheader, hfinish⟩, hmiddle⟩ := List.forall_mem_cons.1 hmiddle
    exact ih hmiddle (h.after hheader hfinish)

/-- From an open assembly on, the same members come out the same if the notes come to the same. -/
theorem IsOpen.agree {middle others : List ClassEvent} (h : assembly.IsOpen)
    (hmiddle : ∀ event ∈ middle, event.kind ≠ .header ∧ event.kind ≠ .finish)
    (hothers : ∀ event ∈ others, event.kind ≠ .header ∧ event.kind ≠ .finish)
    (hmembers : middle.filter (!·.isNoted) = others.filter (!·.isNoted))
    (halike : (middle.foldl ClassDescription.add told).NotesAlike
      (others.foldl ClassDescription.add told)) :
    (Assembly.visit.outcomes (assembly.noting told) (middle ++ [.finish])).filter (!·.1.isNoted) =
        (Assembly.visit.outcomes (assembly.noting told) (others ++ [.finish])).filter
          (!·.1.isNoted)
      ∧ (Assembly.visit.attempt (assembly.noting told) (middle ++ [.finish])).toClassFile =
        (Assembly.visit.attempt (assembly.noting told) (others ++ [.finish])).toClassFile := by
  obtain ⟨hattempt, houtcomes⟩ := @IsOpen.attempt_noting told _ _ hmiddle h
  obtain ⟨hattempt', houtcomes'⟩ := @IsOpen.attempt_noting told _ _ hothers h
  have hopen : (Assembly.visit.attempt assembly (others.filter (!·.isNoted))).IsOpen :=
    h.attempt fun event hevent => hothers event (List.mem_of_mem_filter hevent)
  obtain ⟨hfinish, hfile⟩ := hopen.finish_alike halike
  simp only [Consumer.outcomes_append, Consumer.attempt_append, List.filter_append, houtcomes,
    houtcomes', hattempt, hattempt', hmembers, Consumer.outcomes, Consumer.attempt_cons,
    Consumer.attempt_nil, hfinish, true_and]
  exact hfile

/-! ## Before the header -/

theorem visit_of_header_none (hheader : assembly.header = none) (hkind : event.kind ≠ .header) :
    visit event assembly = .error (.protocol (.beforeHeader event.kind)) assembly := by
  apply visit_of_refusal
  cases event with
  | header header => exact absurd rfl hkind
  | _ => simp [refusal?, hheader]

/-- Without a header every other event is refused. -/
theorem attempt_of_header_none {events : List ClassEvent} (hheader : assembly.header = none)
    (hevents : ∀ event ∈ events, event.kind ≠ .header) :
    Assembly.visit.attempt assembly events = assembly
      ∧ Assembly.visit.outcomes assembly events =
        events.map fun event => (event, .error (.protocol (.beforeHeader event.kind))) := by
  induction events with
  | nil => exact ⟨rfl, rfl⟩
  | cons event events ih =>
    obtain ⟨hevent, hevents⟩ := List.forall_mem_cons.1 hevents
    have hvisit := visit_of_header_none hheader hevent
    rw [Consumer.attempt_cons_of_error hvisit, Consumer.outcomes, Consumer.after_of_error hvisit,
      Run.outcome, hvisit, (ih hevents).2]
    exact ⟨(ih hevents).1, rfl⟩

/-! ## Whole runs -/

theorem Told.noting_eq {style : BodyStyle} {left : List String}
    (h : assembly.Told style left told) : assembly.noting told = assembly := by
  unfold noting
  rw [← h.enclosing, ← h.annotations, ← h.typeAnnotations, ← h.nested]

/-- A header opens an assembly that has seen no event, or leaves it without a header. -/
theorem visit_header_start (style : BodyStyle) (header : ClassHeader) :
    (visit (.header header)).Ensures (start style)
      (fun _ next => next.IsOpen ∧ next.noting (.ofEvents header []) = next)
      fun _ next => next.header = none := by
  have hwaiting : (start style).Waiting style [] := by
    cases (reached_start style).stage with
    | waiting hwaiting => exact hwaiting
  refine (hwaiting.ensures_visitHeader header).imp ?_ ?_
  · intro _ next hopened
    exact ⟨⟨by rw [hopened.header]; rfl, hopened.finished⟩, hopened.noting_eq⟩
  · intro _ next hkeeps
    cases hkeeps.stage with
    | waiting hwaiting => exact hwaiting.header

/-- Behind a header the same members come out the same if the notes come to the same. -/
theorem agree_behind_header (style : BodyStyle) {header : ClassHeader}
    {middle others : List ClassEvent}
    (hmiddle : ∀ event ∈ middle, event.kind ≠ .header ∧ event.kind ≠ .finish)
    (hothers : ∀ event ∈ others, event.kind ≠ .header ∧ event.kind ≠ .finish)
    (hmembers : middle.filter (!·.isNoted) = others.filter (!·.isNoted))
    (halike : (ClassDescription.ofEvents header middle).NotesAlike (.ofEvents header others)) :
    (Assembly.visit.outcomes (start style) (.header header :: (middle ++ [.finish]))).filter
          (!·.1.isNoted) =
        (Assembly.visit.outcomes (start style) (.header header :: (others ++ [.finish]))).filter
          (!·.1.isNoted)
      ∧ (Assembly.visit.attempt (start style)
          (.header header :: (middle ++ [.finish]))).toClassFile =
        (Assembly.visit.attempt (start style)
          (.header header :: (others ++ [.finish]))).toClassFile := by
  have hfirst := visit_header_start style header
  simp only [Consumer.outcomes, Consumer.attempt_cons]
  cases hvisit : visit (.header header) (start style) with
  | ok result next =>
    obtain ⟨hopen, hnoting⟩ := hfirst.of_ok hvisit
    rw [Consumer.after_of_ok hvisit, ← hnoting]
    have halike : (middle.foldl ClassDescription.add (.ofEvents header [])).NotesAlike
        (others.foldl ClassDescription.add (.ofEvents header [])) := by
      rwa [ClassDescription.foldl_add_ofEvents, ClassDescription.foldl_add_ofEvents]
    obtain ⟨houtcomes, hfile⟩ := hopen.agree hmiddle hothers hmembers halike
    simp only [List.filter_cons, houtcomes, true_and]
    exact hfile
  | error error next =>
    have hnone := hfirst.of_error hvisit
    have hlater : ∀ events : List ClassEvent,
        (∀ event ∈ events, event.kind ≠ .header ∧ event.kind ≠ .finish) →
          ∀ event ∈ events ++ [.finish], event.kind ≠ .header := by
      intro events hevents event hevent
      rcases List.mem_append.1 hevent with hevent | hevent
      · exact (hevents event hevent).1
      · cases List.mem_singleton.1 hevent
        exact nofun
    obtain ⟨hattempt, houtcomes⟩ := attempt_of_header_none hnone (hlater middle hmiddle)
    obtain ⟨hattempt', houtcomes'⟩ := attempt_of_header_none hnone (hlater others hothers)
    rw [Consumer.after_of_error hvisit, hattempt, hattempt', houtcomes, houtcomes']
    simp [List.filter_cons, List.filter_map, Function.comp_def, hmembers]

/-! ## Runs that end with the first error -/

/-- The class file that an assembly makes of events, if it accepts them all. -/
def assemble (style : BodyStyle) (events : List ClassEvent) : Except StubError ClassFile := do
  let (result, assembly) := (events.forM visit).outcome (start style)
  result
  assembly.toClassFile

theorem IsOpen.outcome_isNoted {middle : List ClassEvent}
    (hmiddle : ∀ event ∈ middle, event.kind ≠ .header ∧ event.kind ≠ .finish)
    (h : assembly.IsOpen) :
    ∀ item ∈ Assembly.visit.outcomes assembly (middle ++ [.finish]),
      item.1.isNoted → item.2 = .ok () := by
  induction middle generalizing assembly with
  | nil =>
    intro item hitem hnoted
    cases List.mem_singleton.1 hitem
    cases hnoted
  | cons event middle ih =>
    obtain ⟨⟨hheader, hfinish⟩, hmiddle⟩ := List.forall_mem_cons.1 hmiddle
    refine List.forall_mem_cons.2 ⟨fun hnoted => ?_, ih hmiddle (h.after hheader hfinish)⟩
    dsimp only at hnoted ⊢
    unfold Run.outcome
    rw [h.visit hheader]
    cases event <;> first | rfl | cases hnoted

/-- Notes that come too early do not make a run fail otherwise than the header does. -/
theorem assemble_eq (style : BodyStyle) {header : ClassHeader} {middle : List ClassEvent}
    (hmiddle : ∀ event ∈ middle, event.kind ≠ .header ∧ event.kind ≠ .finish) :
    assemble style (.header header :: (middle ++ [.finish])) = (do
      ((visit.outcomes (start style) (.header header :: (middle ++ [.finish]))).filter
        (!·.1.isNoted)).forM Prod.snd
      (visit.attempt (start style) (.header header :: (middle ++ [.finish]))).toClassFile) := by
  have hfirst := visit_header_start style header
  refine (Consumer.outcome_forM_bind _ _).trans (congrArg (· >>= _) ?_)
  cases hvisit : visit (.header header) (start style) with
  | ok result next =>
    obtain ⟨hopen, -⟩ := hfirst.of_ok hvisit
    refine (Consumer.forM_filter_of_ok ?_).symm
    rw [Consumer.outcomes, Consumer.after_of_ok hvisit]
    refine List.forall_mem_cons.2 ⟨nofun, fun item hitem hcounts => ?_⟩
    exact hopen.outcome_isNoted hmiddle item hitem (by simpa using hcounts)
  | error error next =>
    rw [Consumer.outcomes, List.filter_cons_of_pos rfl, Run.outcome, hvisit]
    rfl

end Assembly

/-! ## The two orders -/

section Orders

variable (description : ClassDescription) (surface : Surface)

/-- The events between the header and the closing event by which a class is described. -/
def ClassDescription.middle : List ClassEvent :=
  description.enclosing.toList.map .enclosing
    ++ description.annotations.map .annotated
    ++ description.typeAnnotations.map .typeAnnotated
    ++ description.nested.map .nested
    ++ description.fields.map .field
    ++ description.methods.map .method

theorem ClassDescription.events_eq_middle :
    description.events = .header description.header :: (description.middle ++ [.finish]) := by
  simp [events, frontEvents, middle]

theorem ClassDescription.ofEvents_middle :
    .ofEvents description.header description.middle = description := by
  have hlast : description.enclosing.toList.getLast? = description.enclosing := by
    cases description.enclosing <;> rfl
  unfold ofEvents middle
  simp [List.filterMap_map, hlast]

theorem ClassDescription.kind_of_mem_middle {event : ClassEvent} (h : event ∈ description.middle) :
    event.kind ≠ .header ∧ event.kind ≠ .finish := by
  simp only [middle, List.append_assoc, List.mem_append, List.mem_map] at h
  rcases h with ⟨_, _, rfl⟩ | ⟨_, _, rfl⟩ | ⟨_, _, rfl⟩ | ⟨_, _, rfl⟩ | ⟨_, _, rfl⟩ | ⟨_, _, rfl⟩
  all_goals exact ⟨nofun, nofun⟩

theorem Surface.members_middle : surface.description.middle.filter (!·.isNoted) =
    surface.middle.filter (!·.isNoted) := by
  simp [ClassDescription.middle, middle, description, List.filter_map, Function.comp_def,
    ClassEvent.isNoted]

end Orders

namespace Assembly

/-- What an assembly makes of a surface is the same whether the nested links are told behind the
annotations, as of class files, or before them. -/
theorem assemble_description (style : BodyStyle) (surface : Surface) :
    assemble style surface.description.events = surface.assemble style := by
  have hmiddle : ∀ event ∈ surface.description.middle,
      event.kind ≠ .header ∧ event.kind ≠ .finish :=
    fun _ => surface.description.kind_of_mem_middle
  have hothers : ∀ event ∈ surface.middle, event.kind ≠ .header ∧ event.kind ≠ .finish :=
    fun _ => surface.kind_of_mem_middle
  have halike : (ClassDescription.ofEvents surface.header surface.description.middle).NotesAlike
      (.ofEvents surface.header surface.middle) := by
    have hsame : ClassDescription.ofEvents surface.header surface.description.middle =
        surface.description := surface.description.ofEvents_middle
    rw [hsame, surface.ofEvents_middle]
    exact ⟨rfl, rfl, fun _ => rfl, fun _ => rfl⟩
  obtain ⟨houtcomes, hfile⟩ :=
    agree_behind_header style hmiddle hothers surface.members_middle halike
  have hassemble : surface.assemble style =
      assemble style (.header surface.header :: (surface.middle ++ [.finish])) := rfl
  have hevents : surface.description.events =
      .header surface.header :: (surface.description.middle ++ [.finish]) :=
    surface.description.events_eq_middle
  rw [hassemble, hevents, assemble_eq style hmiddle, assemble_eq style hothers, houtcomes, hfile]

/-- Links and annotations may stand anywhere between the header and the closing event. Where the
members come in the same order and the notes come to the same, all other events have the same
outcome, and the class file, or the reason that there is none, is the same. So it is for the order
of class files and that of surfaces. -/
theorem interleavings_agree (style : BodyStyle) :
    (∀ (header : ClassHeader) (middle others : List ClassEvent),
      (∀ event ∈ middle, event.kind ≠ .header ∧ event.kind ≠ .finish) →
      (∀ event ∈ others, event.kind ≠ .header ∧ event.kind ≠ .finish) →
      middle.filter (!·.isNoted) = others.filter (!·.isNoted) →
      (ClassDescription.ofEvents header middle).NotesAlike (.ofEvents header others) →
      (visit.outcomes (start style) (.header header :: (middle ++ [.finish]))).filter
            (!·.1.isNoted) =
          (visit.outcomes (start style) (.header header :: (others ++ [.finish]))).filter
            (!·.1.isNoted)
        ∧ (visit.attempt (start style) (.header header :: (middle ++ [.finish]))).toClassFile =
          (visit.attempt (start style) (.header header :: (others ++ [.finish]))).toClassFile)
      ∧ ∀ surface : Surface,
        assemble style surface.description.events = surface.assemble style := by
  refine ⟨?_, assemble_description style⟩
  intro header middle others hmiddle hothers hmembers halike
  exact agree_behind_header style hmiddle hothers hmembers halike

/-- Events of a class with one field, in the midst of links and annotations. -/
def scatteredEvents : List ClassEvent :=
  [.annotated ⟨"LB;", false, []⟩, .enclosing { owner := "B" }, .nested ⟨"A", none, none, ⟨0⟩⟩,
    .field { access := ⟨0x0001⟩, name := "x", descriptor := "I" }, .annotated ⟨"LC;", true, []⟩,
    .enclosing { owner := "A" }]

/-- The same of the class, with the field last. -/
def groupedEvents : List ClassEvent :=
  [.enclosing { owner := "A" }, .annotated ⟨"LC;", true, []⟩, .annotated ⟨"LB;", false, []⟩,
    .nested ⟨"A", none, none, ⟨0⟩⟩,
    .field { access := ⟨0x0001⟩, name := "x", descriptor := "I" }]

/-- The field is accepted or refused alike, and the class files are the same. -/
theorem interleavings_agree_scattered :
    (visit.outcomes (start .omit)
          (.header headerOfClassA :: (scatteredEvents ++ [.finish]))).filter (!·.1.isNoted) =
        (visit.outcomes (start .omit)
          (.header headerOfClassA :: (groupedEvents ++ [.finish]))).filter (!·.1.isNoted)
      ∧ (visit.attempt (start .omit)
          (.header headerOfClassA :: (scatteredEvents ++ [.finish]))).toClassFile =
        (visit.attempt (start .omit)
          (.header headerOfClassA :: (groupedEvents ++ [.finish]))).toClassFile := by
  have hscattered : ∀ event ∈ scatteredEvents, event.kind ≠ .header ∧ event.kind ≠ .finish := by
    decide
  have hgrouped : ∀ event ∈ groupedEvents, event.kind ≠ .header ∧ event.kind ≠ .finish := by
    decide
  refine (interleavings_agree .omit).1 headerOfClassA _ _ hscattered hgrouped rfl ?_
  exact ⟨rfl, rfl, fun visible => by cases visible <;> rfl, fun _ => rfl⟩

end Assembly

end ClassStub
