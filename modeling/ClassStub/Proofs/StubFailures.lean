import ClassStub.Proofs.AssemblyFailures
import ClassStub.Proofs.Traces

/-! # How stubbing fails

Of all the errors there are, a stub can meet few. The bytes may not hold a class; the pool of the
stub may run out of space; and a verification may find what the class itself brought with it. The
counts of the stub are never at fault, since the class file counted the same parts in 16 bits, and
leaving out or merging parts makes them fewer. A verification changes nothing but that it may
refuse the stub. -/

namespace ClassStub

open SurfaceBuilder (retained)

/-! ## Counts -/

theorem CanonicalSet.length_ofList_le {α : Type} [Keyed α] (items : List α) :
    (ofList items).toList.length ≤ items.length :=
  (List.subperm_of_subset (nodup _) fun _ => mem_of_mem_ofList).length_le

theorem length_ofList_retained_le {α : Type} [Keyed α] (membership : α → Membership)
    (items : List α) :
    (CanonicalSet.ofList (retained membership items)).toList.length ≤ items.length :=
  Nat.le_trans (CanonicalSet.length_ofList_le _) (List.length_filter_le _ items)

/-- The parts of a class that was parsed can be counted. -/
theorem ClassFile.Describes.countable {file : ClassFile} {description : ClassDescription}
    (h : file.Describes description) (hparsed : file.IsParsed) : description.Countable := by
  obtain ⟨name, superName, interfaces, statements, -, -, hinterfaces, hstatements, hheader, -, -, -,
    hnested⟩ := h.front
  constructor
  case interfaces =>
    have hlength := (mapM_eq_ok.1 hinterfaces).length_eq
    rw [hheader]
    exact hlength ▸ hparsed.interfaces
  case fields => exact (mapM_eq_ok.1 h.fields).length_eq ▸ hparsed.fields
  case methods => exact (mapM_eq_ok.1 h.methods).length_eq ▸ hparsed.methods
  case nested =>
    -- All links come from one attribute, which counts them.
    have hwithin := Statements.within_of_decodeAll hparsed.texts hparsed.attributes.bodies
      hstatements
    have hcount : ∀ links ∈ statements.digest.nested, links.length ≤ 65535 :=
      Statements.last?_within hwithin fun statement _ hwithin hselect => by
        cases statement <;> cases hselect
        exact hwithin.count
    rw [hnested]
    cases hlast : statements.digest.nested with
    | none => exact Nat.zero_le _
    | some links => exact hcount links hlast

/-- A surface has no more parts than its class. -/
theorem ClassDescription.Countable.surface {description : ClassDescription}
    (h : description.Countable) : description.surface.description.Countable where
  interfaces := h.interfaces
  fields := Nat.le_trans (length_ofList_retained_le _ _) h.fields
  methods := Nat.le_trans (length_ofList_retained_le _ _) h.methods
  nested := Nat.le_trans (length_ofList_retained_le _ _) h.nested

theorem countable_of_readSurface {bytes : Bytes} {surface : Surface}
    (h : readSurface bytes = .ok surface) : surface.description.Countable := by
  obtain ⟨file, hparse, hfile⟩ := bind_eq_ok.1 h
  obtain ⟨description, hdescribes, rfl⟩ := ClassFile.surface_ok.1 hfile
  have hparsed := ClassFile.isParsed_of_parse (mapError_eq_ok.1 hparse)
  exact (hdescribes.countable hparsed).surface

/-! ## Stubs -/

/-- The error with which the stub of a class is refused. Only a verification finds the faults that
the class brings with it. -/
def StubError.IsOfStub (config : Config) (error : StubError) : Prop :=
  error = .generation (.pool .outOfSpace)
    ∨ config.verify = true ∧ ∃ fault, error = .verification fault ∧ fault.IsInherited

/-- A verification either refuses what would have been a result without it, or changes nothing. -/
def OnlyRefuses {α : Type} (checked unchecked : Except StubError α) : Prop :=
  (∃ fault, checked = .error (.verification fault) ∧ ∃ result, unchecked = .ok result)
    ∨ checked = unchecked ∧ ∀ fault, checked ≠ .error (.verification fault)

namespace Surface

variable {surface : Surface} {config : Config}

theorem toStub_of_error {error : StubError} (h : surface.assemble config.bodies = .error error) :
    surface.toStub config = .error error := by
  unfold toStub
  rw [h]
  rfl

theorem toStub_of_ok {file : ClassFile} (h : surface.assemble config.bodies = .ok file) :
    surface.toStub config =
      if config.verify then file.verify.mapError .verification >>= fun _ => .ok file.toBytes
      else .ok file.toBytes := by
  unfold toStub
  rw [h]
  rfl

theorem failsOnly_toStub (hcounts : surface.description.Countable) (config : Config) :
    FailsOnly (StubError.IsOfStub config) (surface.toStub config) := by
  cases hassemble : surface.assemble config.bodies with
  | error error =>
    rw [toStub_of_error hassemble]
    exact failsOnly_error (.inl (failsOnly_assemble hcounts error hassemble))
  | ok file =>
    rw [toStub_of_ok hassemble]
    split
    · rename_i hverify
      have hfaults := failsOnly_verify_of_assemble hassemble
      refine FailsOnly.bind (FailsOnly.mapError ?_) fun _ => failsOnly_ok _
      exact hfaults.mono fun fault hfault => .inr ⟨hverify, fault, rfl, hfault⟩
    · exact failsOnly_ok _

theorem onlyRefuses_toStub (hcounts : surface.description.Countable) (config : Config) :
    OnlyRefuses (surface.toStub { config with verify := true })
      (surface.toStub { config with verify := false }) := by
  cases hassemble : surface.assemble config.bodies with
  | error error =>
    have hspace := failsOnly_assemble hcounts error hassemble
    rw [toStub_of_error (by exact hassemble), toStub_of_error (by exact hassemble), hspace]
    exact .inr ⟨rfl, nofun⟩
  | ok file =>
    rw [toStub_of_ok (by exact hassemble), toStub_of_ok (by exact hassemble)]
    cases hverify : file.verify with
    | error fault => exact .inl ⟨fault, rfl, file.toBytes, rfl⟩
    | ok result => exact .inr ⟨rfl, nofun⟩

end Surface

/-- The stub of bytes that hold no class is refused with the reason for that. -/
theorem stubClass_of_error {bytes : Bytes} {error : StubError}
    (h : readSurface bytes = .error error) (config : Config) :
    stubClass bytes config = .error error := by
  unfold stubClass
  rw [h]
  rfl

theorem stubClass_of_ok {bytes : Bytes} {surface : Surface} (h : readSurface bytes = .ok surface)
    (config : Config) : stubClass bytes config = surface.toStub config := by
  unfold stubClass
  rw [h]
  rfl

theorem onlyRefuses_stubClass (bytes : Bytes) (config : Config) :
    OnlyRefuses (stubClass bytes { config with verify := true })
      (stubClass bytes { config with verify := false }) := by
  cases hread : readSurface bytes with
  | error error =>
    obtain ⟨cause, rfl, -⟩ := failsOnly_readSurface bytes error hread
    rw [stubClass_of_error hread, stubClass_of_error hread]
    exact .inr ⟨rfl, nofun⟩
  | ok surface =>
    rw [stubClass_of_ok hread, stubClass_of_ok hread]
    exact Surface.onlyRefuses_toStub (countable_of_readSurface hread) config

/-- Reading a class fails only because of the bytes, and never for lack of space. Stubbing a class
fails in the same way, or because the pool of the stub has no space left, or, if it is verified,
because of a fault that the class brings with it. A verification that finds no fault changes
nothing, and without a verification there is a stub wherever one finds a fault. -/
theorem stubClass_fails (bytes : Bytes) :
    (∀ error, readSurface bytes = .error error →
        ∃ cause, error = .format cause ∧ cause ≠ .pool .outOfSpace)
      ∧ (∀ config error, stubClass bytes config = .error error →
          (∃ cause, error = .format cause ∧ cause ≠ .pool .outOfSpace)
            ∨ error = .generation (.pool .outOfSpace)
            ∨ config.verify = true ∧ ∃ fault, error = .verification fault ∧ fault.IsInherited)
      ∧ ∀ config : Config,
          ((∀ fault, stubClass bytes { config with verify := true } ≠
              .error (.verification fault)) →
            stubClass bytes { config with verify := true } =
              stubClass bytes { config with verify := false })
          ∧ ∀ fault, stubClass bytes { config with verify := true } =
              .error (.verification fault) →
            ∃ stub, stubClass bytes { config with verify := false } = .ok stub := by
  have hread := failsOnly_readSurface bytes
  refine ⟨hread, fun config error herror => ?_, fun config => ?_⟩
  · cases hsurface : readSurface bytes with
    | error cause =>
      rw [stubClass_of_error hsurface] at herror
      cases herror
      exact .inl (hread _ hsurface)
    | ok surface =>
      rw [stubClass_of_ok hsurface] at herror
      exact .inr (Surface.failsOnly_toStub (countable_of_readSurface hsurface) config error herror)
  · rcases onlyRefuses_stubClass bytes config with ⟨fault, hfault, hstub⟩ | ⟨hsame, hnone⟩
    · exact ⟨fun hnone => absurd hfault (hnone fault), fun _ _ => hstub⟩
    · exact ⟨fun _ => hsame, fun fault hfault => absurd hfault (hnone fault)⟩

/-- An interface `A` that has no superclass. -/
def bareInterface : Bytes :=
  [0xCA, 0xFE, 0xBA, 0xBE, 0, 0, 0, 52, 0, 3, 1, 0, 1, 0x41, 7, 0, 1, 0x02, 0, 0, 2]
    ++ List.replicate 10 0

/-- The surface of the interface. -/
def surfaceOfInterfaceA : Surface where
  header := { version := .java8, access := ⟨0x0200⟩, name := "A" }
  enclosing := none
  nested := .ofList []
  annotations := .ofList []
  typeAnnotations := .ofList []
  fields := .ofList []
  methods := .ofList []

/-- The assembly of the interface, before or behind the closing event. -/
def assemblyOfInterfaceA (finished : Bool) : Assembly where
  bodies := .omit
  pool := Pool.ofClassA
  access := ⟨0x0200⟩
  thisClass := 2
  header := some surfaceOfInterfaceA.header
  finished := finished

theorem visit_header_ofInterfaceA :
    Assembly.visit (.header surfaceOfInterfaceA.header) (.start .omit) =
      .ok () (assemblyOfInterfaceA false) := by
  have hfresh : ¬ (Assembly.start .omit).header.isSome = true := Bool.false_ne_true
  refine Run.bind_ok.2 ⟨_, _, rfl, ?_⟩
  rw [if_neg hfresh]
  exact Run.bind_ok.2 ⟨_, _, rfl, Run.bind_ok.2 ⟨_, _, Assembly.interning_eq Pool.addClass_empty,
    Run.bind_ok.2 ⟨_, _, rfl, rfl⟩⟩⟩

theorem visit_finish_ofInterfaceA :
    Assembly.visit .finish (assemblyOfInterfaceA false) = .ok () (assemblyOfInterfaceA true) := by
  refine Run.bind_ok.2 ⟨_, _, rfl, Run.bind_ok.2 ⟨_, _, rfl, Run.bind_ok.2 ⟨_, _, rfl, ?_⟩⟩⟩
  refine Run.bind_ok.2 ⟨_, _, rfl, Run.bind_ok.2 ⟨_, _, rfl, ?_⟩⟩
  exact Run.bind_ok.2 ⟨_, _, rfl, Run.bind_ok.2 ⟨_, _, rfl, rfl⟩⟩

theorem assemble_surfaceOfInterfaceA :
    surfaceOfInterfaceA.assemble .omit = .ok (assemblyOfInterfaceA true).build := by
  have hevents : surfaceOfInterfaceA.events = [.header surfaceOfInterfaceA.header, .finish] := by
    simp [Surface.events, surfaceOfInterfaceA, CanonicalSet.toList_ofList_nil]
  have hrun : ([ClassEvent.header surfaceOfInterfaceA.header, .finish].forM
      Assembly.visit).outcome (.start .omit) = (.ok (), assemblyOfInterfaceA true) :=
    Run.outcome_ok.2 (Run.forM_cons_ok.2 ⟨_, visit_header_ofInterfaceA,
      Run.forM_cons_ok.2 ⟨_, visit_finish_ofInterfaceA, rfl⟩⟩)
  unfold Surface.assemble Surface.replay
  rw [hevents, hrun]
  rfl

theorem stubClass_bareInterface :
    stubClass bareInterface ⟨.omit, true, true⟩ =
      .error (.verification .interfaceWithoutSuperclass) := by
  have hread : readSurface bareInterface = .ok surfaceOfInterfaceA := rfl
  have hverify :
      (assemblyOfInterfaceA true).build.verify = .error .interfaceWithoutSuperclass := rfl
  have hstub : surfaceOfInterfaceA.toStub ⟨.omit, true, true⟩ = _ :=
    Surface.toStub_of_ok assemble_surfaceOfInterfaceA
  rw [if_pos rfl, hverify] at hstub
  exact (stubClass_of_ok hread _).trans hstub

/-- No bytes at all are refused with or without a verification, and the interface only with one. -/
theorem stubClass_fails_bareInterface :
    (∃ cause, readSurface [] = .error (.format cause) ∧ cause ≠ .pool .outOfSpace)
      ∧ stubClass [] ⟨.omit, true, true⟩ = stubClass [] ⟨.omit, false, true⟩
      ∧ (∃ fault, stubClass bareInterface ⟨.omit, true, true⟩ = .error (.verification fault)
        ∧ fault.IsInherited)
      ∧ ∃ stub, stubClass bareInterface ⟨.omit, false, true⟩ = .ok stub := by
  have hempty : readSurface [] = .error (.format (.truncated 0 4)) := rfl
  have hnone : ∀ fault, stubClass [] ⟨.omit, true, true⟩ ≠ .error (.verification fault) := by
    rw [stubClass_of_error hempty]
    exact nofun
  have hfault := stubClass_bareInterface
  obtain ⟨hread, -, hsame⟩ := stubClass_fails []
  obtain ⟨-, hstub, hunchecked⟩ := stubClass_fails bareInterface
  refine ⟨?_, (hsame ⟨.omit, false, true⟩).1 hnone, ?_,
    (hunchecked ⟨.omit, false, true⟩).2 _ hfault⟩
  · obtain ⟨cause, hcause, hspace⟩ := hread _ hempty
    exact ⟨cause, hempty.trans (congrArg _ hcause), hspace⟩
  · rcases hstub _ _ hfault with ⟨_, hformat, -⟩ | hspace | ⟨-, fault, hsame, hinherited⟩
    · cases hformat
    · cases hspace
    · exact ⟨fault, hfault.trans (congrArg _ hsame), hinherited⟩

end ClassStub
