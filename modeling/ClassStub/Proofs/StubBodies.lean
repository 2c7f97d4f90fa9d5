import ClassStub.Proofs.MethodDescriptors
import ClassStub.Proofs.RefusedEvents

/-! # Bodies of stubs

The body that an assembly gives a method has as many local variables as the arguments of the method
take. For the descriptor of a method type that is the number of slots of the type, unless a
parenthesis in the name of a class hides parameters. -/

namespace ClassStub

open Descriptor (MethodType)

/-- The method that an event brings, if it is one. -/
def ClassEvent.method? : ClassEvent → Option Method
  | .method item => some item
  | _ => none

theorem ClassDescription.methods_ofEvents (header : ClassHeader) (middle : List ClassEvent) :
    (ofEvents header middle).methods =
      (.header header :: (middle ++ [.finish])).filterMap ClassEvent.method? := by
  rw [List.filterMap_cons_none rfl, List.filterMap_append, ofEvents]
  exact (List.append_nil _).symm

/-- The local variables that the receiver of a method takes. -/
def Method.receiverSlots (method : Method) : Nat :=
  if method.access.isStatic then 0 else 1

/-- A member has the body that throws `null`, with a number of local variables. -/
def Member.ThrowsNull (pool : Pool) (member : Member) (maxLocals : Nat) : Prop :=
  ∃ item ∈ member.attributes, pool.getName item.name = .ok "Code"
    ∧ item.body = (Code.throwNull maxLocals.toUInt16).toBytes

/-- Nothing in the layout of a body depends on the pool. -/
theorem Code.eq_toBytes_of_isWrittenAs {pool : Pool} {code : Code} {written : Bytes}
    (h : code.layout.IsWrittenAs pool written) : written = code.toBytes := by
  simp [layout, Layout.isWrittenAs_append, Layout.IsWrittenAs, Layout.AreWrittenAs] at h
  rw [h]
  simp [toBytes, LengthField.toBytes]

/-- A method that is written with a body that throws `null` has locals for all of its arguments. -/
theorem Method.throwsNull_of_isWrittenAs {pool : Pool} {method : Method} {member : Member}
    (h : (method.layout .throwNull).IsWrittenAs pool member)
    (hbody : method.access.isBodiless = false) :
    member.ThrowsNull pool
      (min (Descriptor.argumentSlots method.descriptor + method.receiverSlots) 65535) := by
  have hcode : (⟨.code, (Code.throwNull method.argumentSlots).layout⟩ : AttributeLayout) ∈
      (method.layout .throwNull).attributes := by
    simp [layout, stubCode, hbody]
  obtain ⟨item, hitem, hwritten⟩ := exists_of_forall₂ h.attributes hcode
  exact ⟨item, hitem, hwritten.name, Code.eq_toBytes_of_isWrittenAs hwritten.body⟩

/-- The argument slots of a method type, of which there are at most 65535, are read off its
descriptor exactly if no parameter but the last has a closing parenthesis in it, and then all
methods of the type that an assembly accepts have bodies with that many locals, the receiver
included where it leaves them at most 65535. -/
theorem throwsNull_attempt (type : MethodType) (hslots : type.slots ≤ 65535) :
    (Descriptor.argumentSlots type.text = type.slots ↔
        ∀ parameter ∈ type.parameters.dropLast, ¬parameter.HasParenthesis)
      ∧ ((∀ parameter ∈ type.parameters.dropLast, ¬parameter.HasParenthesis) →
        ∀ (events : List ClassEvent) (file : ClassFile),
          (Assembly.visit.attempt (.start .throwNull) events).toClassFile = .ok file →
          List.Forall₂
            (fun method member => method.descriptor = type.text →
              method.access.isBodiless = false →
              member.ThrowsNull file.pool (min (type.slots + method.receiverSlots) 65535))
            ((Assembly.visit.accepted (.start .throwNull) events).filterMap ClassEvent.method?)
            file.methods) := by
  have hiff := Descriptor.sum_reached_eq_iff type.parameters
  rw [← Descriptor.argumentSlots_text hslots] at hiff
  refine ⟨hiff, ?_⟩
  intro hparameters events file hfile
  have hstage := (Assembly.reached_attempt .throwNull events).stage
  obtain ⟨header, middle, hseen, -, -, hwritten⟩ := hstage.exists_isWrittenAs hfile
  rw [hseen, ← ClassDescription.methods_ofEvents]
  have hmethods := List.forall₂_map_left_iff.1 hwritten.methods
  apply hmethods.imp
  intro method member hmember hdescriptor hbody
  have hthrows := Method.throwsNull_of_isWrittenAs hmember hbody
  rwa [hdescriptor, hiff.2 hparameters] at hthrows

/-! ## A method with a parenthesis in its last parameter -/

namespace Pool

/-- The pool of a class `A` with a method that takes a `long` and an instance of a class `)`. -/
def ofThrower : Pool :=
  (ofClassA.push (.utf8 (.ofString "(JL);)V"))).push (.utf8 (.ofString "Code"))

theorem addName_descriptor : addName "(JL);)V" ofClassA =
    .ok 3 (ofClassA.push (.utf8 (.ofString "(JL);)V"))) := by
  unfold addName addText
  rw [add_eq, ofClassA, known_push, known_push, known_empty]
  rfl

theorem addName_code : addName "Code" (ofClassA.push (.utf8 (.ofString "(JL);)V"))) =
    .ok 4 ofThrower := by
  unfold addName addText
  rw [add_eq, ofClassA, known_push, known_push, known_push, known_empty]
  rfl

end Pool

namespace Assembly

/-- The name of a class `)`. -/
def parenthesis : Descriptor.ClassName where
  chars := [')']
  ne_nil := List.cons_ne_nil _ _
  legal := by simp

/-- The type of a method that takes a `long` and an instance of the class `)`. -/
def typeOfThrower : MethodType where
  parameters := [.primitive .long, .object parenthesis]
  result := none

/-- A public method of that type. -/
def thrower : Method where
  access := ⟨0x0001⟩
  name := "A"
  descriptor := "(JL);)V"

/-- The finished assembly of a class `A` with the method. -/
def throwing : Assembly where
  bodies := .throwNull
  pool := Pool.ofThrower
  access := ⟨0x0021⟩
  thisClass := 2
  methods := #[⟨⟨0x0001⟩, 1, 3, [⟨4, (Code.throwNull 4).toBytes⟩]⟩]
  header := some headerOfClassA
  finished := true

theorem encode_thrower : thrower.encode .throwNull Pool.ofClassA =
    .ok ⟨⟨0x0001⟩, 1, 3, [⟨4, (Code.throwNull 4).toBytes⟩]⟩ Pool.ofThrower := by
  have hattributes : Attribute.writeAll (thrower.layout .throwNull).attributes
      (Pool.ofClassA.push (.utf8 (.ofString "(JL);)V"))) =
        .ok [⟨4, (Code.throwNull 4).toBytes⟩] Pool.ofThrower := by
    have hlayouts : (thrower.layout .throwNull).attributes =
        [⟨.code, (Code.throwNull 4).layout⟩] := by rfl
    rw [hlayouts, Attribute.writeAll, List.mapM_cons, List.mapM_nil, AttributeLayout.write,
      Code.write_layout]
    change EStateM.bind (EStateM.bind (Pool.addName "Code") _) _ _ = _
    rw [EStateM.bind, EStateM.bind, Pool.addName_code]
    rfl
  rw [Method.encode_eq_write]
  change EStateM.bind (Pool.addName "A") _ _ = _
  rw [EStateM.bind, Pool.addName_ofClassA_known]
  change EStateM.bind (Pool.addName "(JL);)V") _ _ = _
  rw [EStateM.bind, Pool.addName_descriptor]
  change EStateM.bind (Attribute.writeAll (thrower.layout .throwNull).attributes) _ _ = _
  rw [EStateM.bind, hattributes]
  rfl

theorem run_thrower : [ClassEvent.header headerOfClassA, .method thrower, .finish].forM visit
    (start .throwNull) = .ok () throwing := by
  have hmethod : visit (.method thrower) (ofClassA .throwNull) =
      .ok () { throwing with finished := false } :=
    Run.bind_ok.2 ⟨_, _, rfl, Run.bind_ok.2 ⟨_, _, rfl, Run.bind_ok.2
      ⟨_, _, interning_eq encode_thrower, rfl⟩⟩⟩
  have hfinish : visit .finish { throwing with finished := false } = .ok () throwing := by rfl
  exact Run.forM_cons_ok.2 ⟨_, visit_header_ofClassA .throwNull, Run.forM_cons_ok.2
    ⟨_, hmethod, Run.forM_cons_ok.2 ⟨_, hfinish, rfl⟩⟩⟩

/-- The last parameter is not hidden: the receiver, the `long` and the instance take four locals. -/
theorem throwsNull_attempt_thrower :
    typeOfThrower.slots ≤ 65535
      ∧ (∀ parameter ∈ typeOfThrower.parameters.dropLast, ¬parameter.HasParenthesis)
      ∧ (Assembly.visit.attempt (start .throwNull)
          [.header headerOfClassA, .method thrower, .finish]).toClassFile = .ok throwing.build
      ∧ ∀ member ∈ throwing.build.methods, member.ThrowsNull throwing.build.pool 4 := by
  have hslots : typeOfThrower.slots ≤ 65535 := by decide
  have hlast : ∀ parameter ∈ typeOfThrower.parameters.dropLast, ¬parameter.HasParenthesis := by
    simp [typeOfThrower, Descriptor.FieldType.HasParenthesis, Descriptor.FieldType.text,
      Descriptor.PrimitiveType.letter]
  have hrun := run_thrower
  have hfile : (Assembly.visit.attempt (start .throwNull)
      [.header headerOfClassA, .method thrower, .finish]).toClassFile = .ok throwing.build := by
    rw [Consumer.attempt_of_ok hrun]
    rfl
  have hmethods := (throwsNull_attempt typeOfThrower hslots).2 hlast _ _ hfile
  rw [Consumer.accepted_of_ok hrun] at hmethods
  refine ⟨hslots, hlast, hfile, ?_⟩
  intro member hmember
  obtain ⟨method, hmethod, hthrows⟩ := exists_of_forall₂ hmethods.flip hmember
  cases List.mem_singleton.1 hmethod
  exact hthrows rfl rfl

end Assembly

end ClassStub
