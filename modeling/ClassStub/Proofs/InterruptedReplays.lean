import ClassStub.Proofs.ReadBack
import ClassStub.Proofs.Traces

/-! # Replays that are interrupted

A replay can be ended from two sides: by a part of the class file that cannot be decoded, and by a
consumer that refuses an event. How far a class file is told is a matter of its parts alone, decoded
one after the other. A consumer is told of these events in turn, up to the first that it refuses and
of none behind that, and its own error is then what the replay ends with. -/

namespace ClassStub

/-! ## Consumers that are told in turn -/

section Logs

variable {σ : Type}

/-- A consumer that keeps a log of the events that it is told, and does as `visit` does. -/
def Consumer.logged (visit : Consumer σ) : Consumer (List ClassEvent × σ) :=
  fun event (log, state) =>
    match visit event state with
    | .ok _ next => .ok () (log ++ [event], next)
    | .error error next => .error error (log ++ [event], next)

variable {visit : Consumer σ} {state middle final : σ} {event : ClassEvent}
  {events log : List ClassEvent} {error : StubError}

theorem Consumer.logged_of_ok (h : visit event state = .ok () final) :
    visit.logged event (log, state) = .ok () (log ++ [event], final) := by
  simp only [logged, h]

theorem Consumer.logged_of_error (h : visit event state = .error error final) :
    visit.logged event (log, state) = .error error (log ++ [event], final) := by
  simp only [logged, h]

/-- Events that are all accepted are all told. -/
theorem Run.forM_logged_of_ok (h : events.forM visit state = .ok () final) :
    events.forM visit.logged (log, state) = .ok () (log ++ events, final) := by
  induction events generalizing state log with
  | nil =>
    cases h
    rw [List.append_nil]
    rfl
  | cons event events ih =>
    obtain ⟨next, hnext, hrest⟩ := Run.forM_cons_ok.1 h
    refine Run.forM_cons_ok.2 ⟨_, Consumer.logged_of_ok hnext, ?_⟩
    rw [ih hrest, List.append_assoc, List.singleton_append]

/-- Behind an event that is refused nothing is told. -/
theorem Run.forM_logged_of_error (h : events.forM visit state = .ok () middle)
    (hrefused : visit event middle = .error error final) (others : List ClassEvent) :
    (events ++ event :: others).forM visit.logged (log, state) =
      .error error (log ++ (events ++ [event]), final) := by
  have hevents : (events ++ event :: others).forM visit.logged =
      events.forM visit.logged >>= fun _ => visit.logged event >>= fun _ =>
        others.forM visit.logged := List.forM_append
  rw [hevents, Run.bind_of_ok (Run.forM_logged_of_ok h), ← List.append_assoc]
  exact Run.bind_of_error (Consumer.logged_of_error hrefused)

end Logs

/-- Whoever is told, is told of `events` one after the other. Who accepts them all is told of them
all, and the telling ends with `ending`. Who refuses one of them is told of no other behind it, and
the telling ends with their error. -/
structure TellsInTurn (tell : ∀ σ : Type, Consumer σ → Run σ Unit) (events : List ClassEvent)
    (ending : Except StubError Unit) : Prop where
  accepted : ∀ {σ : Type} (visit : Consumer σ) (state final : σ),
    events.forM visit state = .ok () final →
      (tell _ visit.logged).outcome ([], state) = (ending, events, final)
  refused : ∀ {σ : Type} (visit : Consumer σ) (state middle final : σ) (n : Nat)
    (event : ClassEvent) (error : StubError), events[n]? = some event →
      (events.take n).forM visit state = .ok () middle →
      visit event middle = .error error final →
        (tell _ visit.logged).outcome ([], state) = (.error error, events.take (n + 1), final)

namespace Trace

variable {σ : Type} {visit : Consumer σ} {state final : σ} {trace : Trace}

theorem replay_of_ok (h : trace.events.forM visit state = .ok () final) :
    (trace.replay visit).outcome state = (trace.ending.mapError .format, final) := by
  have hreplay : trace.replay visit state =
      (Run.ofDecoded trace.ending : Run σ Unit) final := Run.bind_of_ok h
  unfold Run.outcome
  rw [hreplay]
  cases trace.ending with
  | ok result => rfl
  | error cause => rfl

theorem replay_of_error {error : StubError}
    (h : trace.events.forM visit state = .error error final) :
    (trace.replay visit).outcome state = (.error error, final) := by
  have hreplay : trace.replay visit state = .error error final := Run.bind_of_error h
  unfold Run.outcome
  rw [hreplay]

/-- A trace is told in turn. -/
theorem tellsInTurn (trace : Trace) :
    TellsInTurn (fun _ => trace.replay) trace.events (trace.ending.mapError .format) where
  accepted visit state final h := replay_of_ok (Run.forM_logged_of_ok h)
  refused visit state middle final n event error hevent hbefore hrefused := by
    -- The refused event parts the trace into what is told in front of it and what never is.
    obtain ⟨hbound, rfl⟩ := List.getElem?_eq_some_iff.1 hevent
    have hsplit : trace.events.take n ++ trace.events[n] :: trace.events.drop (n + 1) =
        trace.events := by
      rw [← List.drop_eq_getElem_cons hbound, List.take_append_drop]
    have hrun : trace.events.forM visit.logged ([], state) =
        .error error (trace.events.take (n + 1), final) := by
      rw [← hsplit, Run.forM_logged_of_error hbefore hrefused, List.nil_append,
        List.take_append_getElem hbound, hsplit]
    exact replay_of_error hrun

/-! ## How far members are told -/

variable {α : Type} {decode : Member → Except FormatError α} {event : α → ClassEvent}
  {before after members : List Member} {member : Member} {items : List α} {cause : FormatError}

theorem ofMembers_of_ok (h : members.mapM decode = .ok items) :
    ofMembers decode event members = ⟨items.map event, .ok ()⟩ := by
  have hitems := mapM_eq_ok.1 h
  clear h
  induction hitems with
  | nil => rfl
  | cons hitem _ ih =>
    rw [ofMembers, ih, hitem]
    rfl

/-- Members are told up to the first that cannot be decoded. -/
theorem ofMembers_of_error (hbefore : before.mapM decode = .ok items)
    (hmember : decode member = .error cause) :
    ofMembers decode event (before ++ member :: after) = ⟨items.map event, .error cause⟩ := by
  have hitems := mapM_eq_ok.1 hbefore
  clear hbefore
  induction hitems with
  | nil =>
    rw [List.nil_append, ofMembers, hmember]
    rfl
  | cons hitem _ ih =>
    rw [List.cons_append, ofMembers, ih, hitem]
    rfl

end Trace

/-! ## How far a class file is told -/

theorem Statement.resolve_eq_error {α : Type} {result : Except PoolError α} {cause : FormatError} :
    resolve result = .error cause ↔ ∃ reason, result = .error reason ∧ .pool reason = cause := by
  cases result with
  | ok value => exact ⟨nofun, nofun⟩
  | error other =>
    constructor
    · rintro ⟨⟩
      exact ⟨other, rfl, rfl⟩
    · rintro ⟨_, ⟨⟩, rfl⟩
      rfl

/-- Kinds of events in the order in which a class is told: a header, an enclosing link unless there
is none, annotations, type annotations, nested links, fields, methods, and the closing event unless
the class is not told to its end. -/
def EventKind.AreInOrder (kinds : List EventKind) : Prop :=
  kinds = [] ∨ ∃ enclosing annotated typeAnnotated nested fields methods finish : Nat,
    enclosing ≤ 1 ∧ finish ≤ 1
      ∧ kinds = EventKind.header :: (List.replicate enclosing EventKind.enclosing
        ++ List.replicate annotated EventKind.annotated
        ++ List.replicate typeAnnotated EventKind.typeAnnotated
        ++ List.replicate nested EventKind.nested ++ List.replicate fields EventKind.field
        ++ List.replicate methods EventKind.method ++ List.replicate finish EventKind.finish)

namespace ClassDescription

/-- The events by which a class is described, in front of the closing one. -/
def openEvents (description : ClassDescription) : List ClassEvent :=
  description.frontEvents ++ (description.fields.map .field ++ description.methods.map .method)

variable (description : ClassDescription)

theorem areInOrder_openEvents {finish : Nat} (hfinish : finish ≤ 1) : EventKind.AreInOrder
    ((description.openEvents ++ List.replicate finish ClassEvent.finish).map ClassEvent.kind) := by
  refine .inr ⟨description.enclosing.toList.length, description.annotations.length,
    description.typeAnnotations.length, description.nested.length, description.fields.length,
    description.methods.length, finish, ?_, hfinish, ?_⟩
  · cases description.enclosing with
    | none => exact Nat.zero_le 1
    | some link => exact Nat.le_refl 1
  · simp [openEvents, frontEvents, ClassEvent.kind, Function.comp_def]

theorem finish_notMem_openEvents : .finish ∉ description.openEvents := by
  simp [openEvents, frontEvents]

end ClassDescription

namespace ClassFile

open Statement (resolve resolve_eq_error)

/-- A part of the header of a class file, or an attribute of the class itself, cannot be decoded. -/
def HasFrontFault (file : ClassFile) (cause : FormatError) : Prop :=
  resolve file.className = .error cause
    ∨ (∃ item ∈ file.attributes, Statement.decode file.pool .onClass item = .error cause)
    ∨ (∃ index ∈ file.interfaces, resolve (file.pool.getClassName index) = .error cause)
    ∨ resolve (file.pool.getOptionalClassName file.superClass) = .error cause

/-- How far a class file is told, and how that ends: not at all with a fault in front of its
members, and otherwise up to the first member that cannot be decoded. -/
inductive IsTold (file : ClassFile) : List ClassEvent → Except FormatError Unit → Prop where
  | nothing {cause : FormatError} (hfront : file.frontEvents = .error cause)
      (hfault : file.HasFrontFault cause) : IsTold file [] (.error cause)
  | toField {front : List ClassEvent} {before after : List Member} {member : Member}
      {fields : List Field} {cause : FormatError} (hfront : file.frontEvents = .ok front)
      (hmembers : file.fields = before ++ member :: after)
      (hbefore : before.mapM file.decodeField = .ok fields)
      (hmember : file.decodeField member = .error cause) :
      IsTold file (front ++ fields.map .field) (.error cause)
  | toMethod {front : List ClassEvent} {before after : List Member} {member : Member}
      {fields : List Field} {methods : List Method} {cause : FormatError}
      (hfront : file.frontEvents = .ok front)
      (hfields : file.fields.mapM file.decodeField = .ok fields)
      (hmembers : file.methods = before ++ member :: after)
      (hbefore : before.mapM file.decodeMethod = .ok methods)
      (hmember : file.decodeMethod member = .error cause) :
      IsTold file (front ++ (fields.map .field ++ methods.map .method)) (.error cause)
  | whole {front : List ClassEvent} {fields : List Field} {methods : List Method}
      (hfront : file.frontEvents = .ok front)
      (hfields : file.fields.mapM file.decodeField = .ok fields)
      (hmethods : file.methods.mapM file.decodeMethod = .ok methods) :
      IsTold file (front ++ (fields.map .field ++ (methods.map .method ++ [.finish]))) (.ok ())

variable {file : ClassFile}

theorem hasFrontFault_of_frontEvents {cause : FormatError}
    (h : file.frontEvents = .error cause) : file.HasFrontFault cause := by
  rcases bind_eq_error.1 h with hname | ⟨name, -, h⟩
  · exact .inl hname
  · rcases bind_eq_error.1 h with hstatements | ⟨statements, -, h⟩
    · exact .inr (.inl (exists_mem_of_mapM_eq_error hstatements))
    · rcases bind_eq_error.1 h with hinterfaces | ⟨interfaces, -, h⟩
      · obtain ⟨reason, hreason, rfl⟩ := resolve_eq_error.1 hinterfaces
        obtain ⟨index, hmem, hindex⟩ := exists_mem_of_mapM_eq_error hreason
        exact .inr (.inr (.inl ⟨index, hmem, resolve_eq_error.2 ⟨reason, hindex, rfl⟩⟩))
      · rcases bind_eq_error.1 h with hsuper | ⟨superName, -, h⟩
        · exact .inr (.inr (.inr hsuper))
        · cases h

/-- Where the header and the attributes of a class have been decoded, none of them has a fault. -/
theorem not_hasFrontFault_of_frontEvents {front : List ClassEvent} {cause : FormatError}
    (h : file.frontEvents = .ok front) : ¬file.HasFrontFault cause := by
  obtain ⟨name, superName, interfaces, statements, hname, hsuper, hinterfaces, hstatements, -⟩ :=
    frontEvents_ok.1 h
  rintro (hfault | ⟨item, hitem, hfault⟩ | ⟨index, hindex, hfault⟩ | hfault)
  · obtain ⟨reason, hreason, -⟩ := resolve_eq_error.1 hfault
    rw [className, hname] at hreason
    cases hreason
  · obtain ⟨statement, -, hdecoded⟩ := exists_of_forall₂ (mapM_eq_ok.1 hstatements) hitem
    rw [hdecoded] at hfault
    cases hfault
  · obtain ⟨reason, hreason, -⟩ := resolve_eq_error.1 hfault
    obtain ⟨interface, -, hresolved⟩ := exists_of_forall₂ (mapM_eq_ok.1 hinterfaces) hindex
    rw [hresolved] at hreason
    cases hreason
  · obtain ⟨reason, hreason, -⟩ := resolve_eq_error.1 hfault
    rw [hsuper] at hreason
    cases hreason

/-- A trace tells how far its class file is told. -/
theorem isTold_trace (file : ClassFile) : file.IsTold file.trace.events file.trace.ending := by
  -- What is decoded later matters only where all that is decoded earlier has no fault.
  cases hfront : file.frontEvents with
  | error cause =>
    have htrace : file.trace = ⟨[], .error cause⟩ := by
      rw [trace, hfront]
      rfl
    rw [htrace]
    exact .nothing hfront (hasFrontFault_of_frontEvents hfront)
  | ok front =>
    have htrace : file.trace =
        ⟨front ++ file.memberTrace.events, file.memberTrace.ending⟩ := by
      rw [trace, hfront]
      rfl
    rw [htrace]
    cases hfields : file.fields.mapM file.decodeField with
    | error cause =>
      obtain ⟨before, member, after, fields, hmembers, hbefore, hmember⟩ :=
        exists_of_mapM_eq_error hfields
      have htold : file.memberTrace = ⟨fields.map .field, .error cause⟩ := by
        rw [memberTrace, hmembers, Trace.ofMembers_of_error hbefore hmember]
        rfl
      rw [htold]
      exact .toField hfront hmembers hbefore hmember
    | ok fields =>
      cases hmethods : file.methods.mapM file.decodeMethod with
      | error cause =>
        obtain ⟨before, member, after, methods, hmembers, hbefore, hmember⟩ :=
          exists_of_mapM_eq_error hmethods
        have htold : file.memberTrace =
            ⟨fields.map .field ++ methods.map .method, .error cause⟩ := by
          rw [memberTrace, Trace.ofMembers_of_ok hfields, hmembers,
            Trace.ofMembers_of_error hbefore hmember]
          rfl
        rw [htold]
        exact .toMethod hfront hfields hmembers hbefore hmember
      | ok methods =>
        have htold : file.memberTrace =
            ⟨fields.map .field ++ (methods.map .method ++ [.finish]), .ok ()⟩ := by
          rw [memberTrace, Trace.ofMembers_of_ok hfields, Trace.ofMembers_of_ok hmethods]
          rfl
        rw [htold]
        exact .whole hfront hfields hmethods

/-! ## What is told in front of a fault -/

section Told

variable {events : List ClassEvent} {ending : Except FormatError Unit}

theorem exists_frontEvents_eq {front : List ClassEvent} (h : file.frontEvents = .ok front)
    (fields : List Field) (methods : List Method) : ∃ description : ClassDescription,
      description.openEvents = front ++ (fields.map .field ++ methods.map .method) := by
  obtain ⟨name, superName, interfaces, statements, -, -, -, -, rfl⟩ := frontEvents_ok.1 h
  let front : ClassDescription :=
    { header := statements.digest.header file name superName interfaces
      enclosing := statements.digest.enclosing
      annotations := statements.digest.annotations
      typeAnnotations := statements.digest.typeAnnotations
      nested := statements.digest.nested.getD []
      fields, methods }
  exact ⟨front, rfl⟩

/-- Nothing is told of a class, or what a description of a class says, with the closing event behind
it or without. -/
theorem IsTold.eq_openEvents (h : file.IsTold events ending) :
    (events = [] ∧ ∃ cause, ending = .error cause ∧ file.HasFrontFault cause)
      ∨ ∃ (description : ClassDescription) (finish : Nat),
        events = description.openEvents ++ List.replicate finish .finish
          ∧ (∀ cause, ¬file.HasFrontFault cause)
          ∧ (finish = 0 ∧ ending ≠ .ok () ∨ finish = 1 ∧ ending = .ok ()) := by
  cases h with
  | nothing hfront hfault => exact .inl ⟨rfl, _, rfl, hfault⟩
  | @toField front before after member fields cause hfront hmembers hbefore hmember =>
    obtain ⟨description, hopen⟩ := exists_frontEvents_eq hfront fields []
    refine .inr ⟨description, 0, ?_, fun _ => not_hasFrontFault_of_frontEvents hfront,
      .inl ⟨rfl, nofun⟩⟩
    rw [hopen, List.map_nil, List.append_nil, List.replicate_zero, List.append_nil]
  | @toMethod front before after member fields methods cause hfront hfields hmembers hbefore
      hmember =>
    obtain ⟨description, hopen⟩ := exists_frontEvents_eq hfront fields methods
    refine .inr ⟨description, 0, ?_, fun _ => not_hasFrontFault_of_frontEvents hfront,
      .inl ⟨rfl, nofun⟩⟩
    rw [hopen, List.replicate_zero, List.append_nil]
  | @whole front fields methods hfront hfields hmethods =>
    obtain ⟨description, hopen⟩ := exists_frontEvents_eq hfront fields methods
    refine .inr ⟨description, 1, ?_, fun _ => not_hasFrontFault_of_frontEvents hfront,
      .inr ⟨rfl, rfl⟩⟩
    rw [hopen, List.replicate_one, List.append_assoc, List.append_assoc]

/-- The header comes first and the closing event last, and between them each kind of events has its
place. -/
theorem IsTold.areInOrder (h : file.IsTold events ending) :
    EventKind.AreInOrder (events.map ClassEvent.kind) := by
  rcases h.eq_openEvents with ⟨rfl, -⟩ | ⟨description, finish, rfl, -, hending⟩
  · exact .inl rfl
  · have hfinish : finish ≤ 1 := by
      rcases hending with ⟨rfl, -⟩ | ⟨rfl, -⟩
      · exact Nat.zero_le 1
      · exact Nat.le_refl 1
    exact description.areInOrder_openEvents hfinish

/-- A class is told to its end exactly if nothing in it has a fault. -/
theorem IsTold.finish_mem_iff (h : file.IsTold events ending) :
    .finish ∈ events ↔ ending = .ok () := by
  rcases h.eq_openEvents with ⟨rfl, cause, rfl, -⟩ | ⟨description, finish, rfl, -, hending⟩
  · exact ⟨nofun, nofun⟩
  · rcases hending with ⟨rfl, hending⟩ | ⟨rfl, rfl⟩
    · rw [List.replicate_zero, List.append_nil]
      exact ⟨fun hfinish => absurd hfinish description.finish_notMem_openEvents,
        fun hok => absurd hok hending⟩
    · exact ⟨fun _ => rfl, fun _ => List.mem_append_right _ List.mem_cons_self⟩

/-- Nothing is told of a class exactly if its header or an attribute of its own has a fault. -/
theorem IsTold.hasFrontFault_iff (h : file.IsTold events ending) :
    (∃ cause, file.HasFrontFault cause) ↔ events = [] := by
  rcases h.eq_openEvents with ⟨rfl, cause, -, hfault⟩ | ⟨description, finish, rfl, hsound, -⟩
  · exact ⟨fun _ => rfl, fun _ => ⟨cause, hfault⟩⟩
  · constructor
    · rintro ⟨cause, hfault⟩
      exact absurd hfault (hsound cause)
    · intro hnil
      cases hnil

end Told

end ClassFile

/-- A replay tells a consumer about a class event by event, in order. Who refuses nothing is told
of the header, of at most one enclosing link, of annotations, type annotations and nested links, of
fields and methods, and at the end, if and only if the replay succeeds, that this is all. A fault
in the header or in an attribute of the class ends a replay before anything is told, and one in a
member ends it when everything in front of that member has been told. Who refuses an event is told
of those up to that and of none behind it, and the replay ends with their own error. It is the same
with a surface, which has no faults. -/
theorem replays_tellInTurn :
    (∀ file : ClassFile, ∃ events ending,
      (file.replay (record none)).outcome #[] = (ending.mapError .format, events.toArray)
        ∧ EventKind.AreInOrder (events.map ClassEvent.kind)
        ∧ (.finish ∈ events ↔ ending = .ok ())
        ∧ ((∃ cause, file.HasFrontFault cause) ↔ events = [])
        ∧ file.IsTold events ending
        ∧ TellsInTurn (fun _ => file.replay) events (ending.mapError .format))
      ∧ ∀ surface : Surface, TellsInTurn (fun _ => surface.replay) surface.events (.ok ()) := by
  constructor
  · intro file
    have htold := file.isTold_trace
    have hreplay : (fun σ : Type => (file.replay : Consumer σ → Run σ Unit)) =
        fun _ => file.trace.replay := by
      funext σ visit
      exact ClassFile.replay_eq_replay_trace visit
    refine ⟨_, _, ?_, htold.areInOrder, htold.finish_mem_iff, htold.hasFrontFault_iff, htold, ?_⟩
    · rw [ClassFile.replay_eq_replay_trace, Trace.replay_of_ok (forM_record_none _ _),
        Array.empty_append]
    · rw [hreplay]
      exact file.trace.tellsInTurn
  · intro surface
    have hreplay : (fun σ : Type => (surface.replay : Consumer σ → Run σ Unit)) =
        fun _ => (Trace.mk surface.events (.ok ())).replay := by
      funext σ visit
      exact (bind_pure (surface.events.forM visit)).symm
    rw [hreplay]
    exact (Trace.mk surface.events (.ok ())).tellsInTurn

end ClassStub
