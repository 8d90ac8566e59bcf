import Certi.LibCERTI.FomTransfer
import Certi.LibCERTI.SocketServer
import Certi.RTIG.Run

/-!
# Joining a federation

`Federation::add` with everything it may stumble over: the FOM modules the join
names (`Federation_fom.cc`, `RootObject::canBeAddedTo`), the links of the other
federates, and the references of the connection the join comes over. The
members, their labels and the regulators are those of `Federation`; that `add`
takes whether the modules open and the link is free as given, this one finds
out.
-/
namespace Certi

open Modules Throwing

/-! ## FOM modules -/

/-- What the file system and the text layer of the readers say about names and paths. -/
structure Disk where
  filepathOf : String → Except RTIException String
  read : String → Except RTIException Document

/-- A dot and one of two extensions, in the last four characters. -/
def checkFileType (path : String) : Except RTIException Unit :=
  if path.toList.length < 4 then .error .outOfRange
  else
    let extension := String.ofList (path.toList.drop (path.toList.length - 4))
    if extension = ".fed" || extension = ".xml" then .ok () else .error .couldNotOpenFED

section CanBeAdded

variable {σ μ : Type}

/-- Whether the superclasses of a class and of the existing one have one name; asking for the name
of no class throws. -/
def sameParents (mine main : ClassSet σ μ) (c existing : ClassEntry σ μ) :
    Except RTIException Bool :=
  if existing.superClass = 0 && c.superClass = 0 then .ok true
  else do
    let theirs ← getObjectFromHandle main existing.superClass
    let ours ← getObjectFromHandle mine c.superClass
    .ok (theirs.name = ours.name)

/-- Members of one name, compared one existing member after another. -/
def membersAgree (name : μ → String) (agree : μ → μ → Except RTIException Bool)
    (c existing : ClassEntry σ μ) : Except RTIException Bool :=
  if (existing.members.map fun m => name m.2).isPerm (c.members.map fun m => name m.2) then
    existing.members.allM fun old =>
      match c.members.find? fun new => name new.2 = name old.2 with
      | some new => agree old.2 new.2
      | none => .error .nameNotFound
  else .ok false

def classFits (name : μ → String) (agree : μ → μ → Except RTIException Bool)
    (mine main : ClassSet σ μ) (c : ClassEntry σ μ) : Except RTIException Bool :=
  match getHandleFromName main c.name with
  | .error _ => .ok true
  | .ok h => do
    let existing ← getObjectFromHandle main h
    if ← sameParents mine main c existing then membersAgree name agree c existing else .ok false

end CanBeAdded

/-- The spaces are looked up crosswise: the existing attribute's in the new root object, the new
attribute's in the existing one. -/
def sameSpace (mine main : Modules.RootObject) (old new : Modules.Attribute) :
    Except RTIException Bool :=
  if old.space = 0 && new.space = 0 then .ok true
  else do
    let theirs ← mine.getRoutingSpaceName old.space
    let ours ← main.getRoutingSpaceName new.space
    .ok (theirs = ours)

/-- `RootObject::canBeAddedTo`; parameters only have to have the same names. -/
def canBeAddedTo (mine main : Modules.RootObject) : Except RTIException Bool := do
  let classes ← (byName mine.objectClasses).allM <|
    classFits Modules.Attribute.name
      (fun old new => do
        if ← sameSpace mine main old new then
          .ok (old.transport = new.transport && old.order = new.order)
        else .ok false)
      mine.objectClasses main.objectClasses
  if classes then
    (byName mine.interactions).allM <|
      classFits Parameter.name (fun _ _ => .ok true) mine.interactions main.interactions
  else .ok false

/-- The root object of a federation, which only readers change. -/
def LiveRoot := { root : Modules.RootObject // root.Sound }

/-- The root object after a document has been read into it, also when the reader gave up. -/
def LiveRoot.read (root : LiveRoot) (doc : Document) : LiveRoot :=
  ⟨readInto root.1 doc, (readInto_grown root.2 doc).1⟩

/-- What a module has to pass before it is read into the live root object. -/
def Disk.check (disk : Disk) (root : LiveRoot) (module : String) :
    Except RTIException (String × Document) := do
  let path ← disk.filepathOf module
  checkFileType path
  let doc ← disk.read path
  match parseModuleInto false doc {} with
  | .error e _ => .error e
  | .ok _ temporary =>
    if ← canBeAddedTo temporary root.1 then .ok (path, doc) else .error .errorReadingFED

structure FomState where
  root : LiveRoot
  modules : List String

def openFomModule (disk : Disk) (module : String) : EStateM RTIException FomState Unit := fun s =>
  match disk.check s.root module with
  | .error e => .error e s
  | .ok (path, doc) =>
    match parseModuleInto true doc s.root.1 with
    | .error e _ => .error e { s with root := s.root.read doc }
    | .ok _ _ => .ok () { root := s.root.read doc, modules := s.modules ++ [path] }

def openFomModules (disk : Disk) (modules : List String) : EStateM RTIException FomState Unit :=
  modules.forM (openFomModule disk)

/-! ## The join -/

structure HostedFederation where
  handle : FederationHandle
  core : Federation
  fom : FomState
  sockets : SocketServer

structure JoinRequest where
  name : String
  additionalFomModules : List String
  socket : Descriptor

/-- The federate's handle, what is sent to it, and the FOM that it and all others are sent. -/
structure JoinAnswer where
  federate : FederateHandle
  sent : Responses
  fom : SerializedFom

namespace HostedFederation

variable (f : HostedFederation)

/-- What `respondToAll` asks of the federates that are there. -/
def othersHaveReferences : Except RTIException Unit :=
  (f.core.federates.map Federate.handle).forM fun h =>
    (f.sockets.getSocketLink f.handle h).map fun _ => ()

/-- The end of `add`, once the modules have been read and the labels given. -/
def welcome (q : JoinRequest) (h : FederateHandle) :
    EStateM RTIException HostedFederation JoinAnswer := fun joined =>
  match joined.fom.root.1.convertToSerializedFOM with
  | .error e => .error e joined
  | .ok fom =>
    match f.othersHaveReferences with
    | .error e => .error e joined
    | .ok _ =>
      match joined.sockets.setReferences q.socket joined.handle h with
      | (sockets, .returned) =>
        .ok ⟨h, f.core.regulators.map (fun clock => (h, .messageNull clock.1 clock.2)) ++
            f.core.synchronizationLabels.map (fun label =>
              (h, .announceSynchronizationPoint label.1 label.2)) ++
            [(h, .joinFederationExecution h f.core.regulators.length)], fom⟩
          { joined with sockets := sockets }
      | (_, .thrown e) => .error e joined
      | (_, .crashed) => .error .rtiInternalError joined

/-- `Federation::add` -/
def add (disk : Disk) (q : JoinRequest) : EStateM RTIException HostedFederation JoinAnswer := fun f =>
  if f.core.federates.any (fun fed => fed.name = q.name) then
    .error .federateAlreadyExecutionMember f
  else
    match openFomModules disk q.additionalFomModules f.fom with
    | .error e fom => .error e { f with core := f.core.inserted q.name, fom := fom }
    | .ok _ fom =>
      f.welcome q f.core.nextFederate { f with core := f.core.labelled q.name, fom := fom }

end HostedFederation

open HostedFederation

/-! ## When a join is atomic -/

/-- The same federates with the same labels, the same FOM, the same list of modules. -/
structure HostedFederation.Unchanged (f f' : HostedFederation) : Prop where
  federates : f'.core.federates = f.core.federates
  root : f'.fom.root = f.fom.root
  modules : f'.fom.modules = f.fom.modules

/-- The modules can be opened one after another. -/
def Loadable (disk : Disk) : LiveRoot → List String → Prop
  | _, [] => True
  | root, module :: rest =>
    ∃ path doc, disk.check root module = .ok (path, doc) ∧
      (∃ root', parseModuleInto true doc root.1 = .ok () root') ∧ Loadable disk (root.read doc) rest

def HostedFederation.NameTaken (f : HostedFederation) (q : JoinRequest) : Prop :=
  ∃ fed ∈ f.core.federates, fed.name = q.name

/-- The connection is known and nobody has joined over it. -/
def HostedFederation.LinkFree (f : HostedFederation) (q : JoinRequest) : Prop :=
  ∃ t, f.sockets.getWithSocket q.socket = .ok t ∧ t.Unbound

def HostedFederation.OthersLinked (f : HostedFederation) : Prop :=
  ∀ fed ∈ f.core.federates, ∃ t, f.sockets.getWithReferences f.handle fed.handle = .ok t

structure Joinable (disk : Disk) (f : HostedFederation) (q : JoinRequest) : Prop where
  modules : Loadable disk f.fom.root q.additionalFomModules
  others : f.OthersLinked
  link : f.LinkFree q

/-- The request comes over a connection whose federate has resigned, and nothing but that could
stand in its way. -/
structure Rejoins (disk : Disk) (f : HostedFederation) (q : JoinRequest) : Prop where
  resigned : ∃ t, f.sockets.getWithSocket q.socket = .ok t ∧ t.federation = f.handle ∧
    f.core.federate? t.federate = none
  name : ¬f.NameTaken q
  modules : Loadable disk f.fom.root q.additionalFomModules
  others : f.OthersLinked

/-- A refused join leaves no trace, not even its name, and a connection can be joined over again
after a resignation. -/
structure Atomic (disk : Disk) (f : HostedFederation) (q : JoinRequest) : Prop where
  refused : ∀ e f', add disk q f = .error e f' → f.Unchanged f'
  retry : ∀ e f', add disk q f = .error e f' → f'.NameTaken q → f.NameTaken q
  rejoin : Rejoins disk f q → ∃ answer f', add disk q f = .ok answer f'

section Atomicity

variable {disk : Disk} {f : HostedFederation} {q : JoinRequest}

theorem openFomModules_ok_iff {modules : List String} {s : FomState} :
    (∃ s', openFomModules disk modules s = .ok () s') ↔ Loadable disk s.root modules := by
  induction modules generalizing s with
  | nil => exact ⟨fun _ => trivial, fun _ => ⟨s, rfl⟩⟩
  | cons module rest ih =>
    unfold openFomModules Loadable
    constructor
    · rintro ⟨s', run⟩
      obtain ⟨s1, first, later⟩ := forM_cons_ok.mp run
      unfold openFomModule at first
      cases checked : disk.check s.root module with
      | error e =>
        rw [checked] at first
        cases first
      | ok found =>
        obtain ⟨path, doc⟩ := found
        rw [checked] at first
        simp only at first
        cases parsed : parseModuleInto true doc s.root.1 with
        | error e root' =>
          rw [parsed] at first
          cases first
        | ok u root' =>
          rw [parsed] at first
          cases first
          exact ⟨path, doc, rfl, ⟨root', parsed⟩, ih.mp ⟨s', later⟩⟩
    · rintro ⟨path, doc, checked, ⟨root', parsed⟩, later⟩
      obtain ⟨s', run⟩ := (@ih ⟨s.root.read doc, s.modules ++ [path]⟩).mpr later
      refine ⟨s', forM_cons_ok.mpr ⟨_, ?_, run⟩⟩
      unfold openFomModule
      rw [checked]
      simp only
      rw [parsed]

theorem othersHaveReferences_ok_iff : f.othersHaveReferences = .ok () ↔ f.OthersLinked := by
  unfold othersHaveReferences HostedFederation.OthersLinked
  induction f.core.federates with
  | nil =>
    constructor
    · intro _ fed member
      cases member
    · intro _
      rfl
  | cons fed rest ih =>
    change ((f.sockets.getSocketLink f.handle fed.handle).map (fun _ => ()) >>= fun _ =>
      (rest.map Federate.handle).forM fun h =>
        (f.sockets.getSocketLink f.handle h).map fun _ => ()) = .ok () ↔ _
    unfold SocketServer.getSocketLink at ih ⊢
    cases found : f.sockets.getWithReferences f.handle fed.handle with
    | error e =>
      simp only [Except.map, bind, Except.bind, reduceCtorEq, false_iff]
      intro linked
      obtain ⟨t, here⟩ := linked fed List.mem_cons_self
      rw [found] at here
      cases here
    | ok t =>
      simp only [Except.map, bind, Except.bind] at ih ⊢
      rw [ih]
      constructor
      · intro linked g member
        rcases List.mem_cons.mp member with rfl | later
        · exact ⟨t, found⟩
        · exact linked g later
      · intro linked g member
        exact linked g (List.mem_cons_of_mem _ member)

theorem setReferences_returned_iff {s : SocketServer} {socket : Descriptor}
    (federation : FederationHandle) (federate : FederateHandle) :
    (∃ s', s.setReferences socket federation federate = (s', .returned)) ↔
      ∃ t, s.getWithSocket socket = .ok t ∧ t.Unbound := by
  unfold SocketServer.setReferences
  cases found : s.getWithSocket socket with
  | error e => simp
  | ok t =>
    simp only [Except.ok.injEq, exists_eq_left', SocketTuple.Unbound]
    by_cases unbound : t.federation = 0 ∧ t.federate = 0
    · simp [unbound]
    · have bound : (decide (t.federation ≠ 0) || decide (t.federate ≠ 0)) = true := by
        rcases not_and_or.mp unbound with has | has <;> simp [has]
      rw [if_pos bound]
      simp [unbound]

/-- What the end of `add` needs. It leaves the federation it got when it throws. -/
theorem welcome_cases (joined : HostedFederation) (h : FederateHandle)
    (sockets : joined.sockets = f.sockets) :
    (f.OthersLinked ∧ f.LinkFree q ∧ ∃ answer f', f.welcome q h joined = .ok answer f') ∨
      (¬(f.OthersLinked ∧ f.LinkFree q) ∧ ∃ e, f.welcome q h joined = .error e joined) := by
  obtain ⟨classes, interactions, _, _, converted⟩ := joined.fom.root.2.converts
  unfold HostedFederation.LinkFree
  rw [← othersHaveReferences_ok_iff,
    ← setReferences_returned_iff joined.handle h, ← sockets]
  unfold HostedFederation.welcome
  rw [converted]
  cases linked : f.othersHaveReferences with
  | error e => simp
  | ok u =>
    cases set : joined.sockets.setReferences q.socket joined.handle h with
    | mk s ending =>
      cases ending with
      | returned => simp
      | thrown e => simp
      | crashed => simp

/-- A welcome only binds the connection. -/
theorem welcome_core {joined f' : HostedFederation} {h : FederateHandle} {answer : JoinAnswer}
    (answered : f.welcome q h joined = .ok answer f') : f'.core = joined.core := by
  unfold HostedFederation.welcome at answered
  split at answered
  · cases answered
  · split at answered
    · cases answered
    · split at answered <;> cases answered
      rfl

/-- A join returns exactly when the name is free and nothing on the way can refuse it. -/
theorem add_ok_iff : (∃ answer f', add disk q f = .ok answer f') ↔
    ¬f.NameTaken q ∧ Joinable disk f q := by
  have taken_iff : f.core.federates.any (fun fed => fed.name = q.name) = true ↔ f.NameTaken q := by
    simp [HostedFederation.NameTaken, List.any_eq_true]
  unfold HostedFederation.add
  by_cases taken : f.NameTaken q
  · rw [if_pos (taken_iff.mpr taken)]
    simp [taken]
  · rw [if_neg (fun any => taken (taken_iff.mp any))]
    have loads : (∃ s', openFomModules disk q.additionalFomModules f.fom = .ok () s') ↔
        Loadable disk f.fom.root q.additionalFomModules := openFomModules_ok_iff
    cases opened : openFomModules disk q.additionalFomModules f.fom with
    | error e fom =>
      constructor
      · rintro ⟨answer, f', impossible⟩
        cases impossible
      · rintro ⟨_, joinable⟩
        obtain ⟨s', run⟩ := loads.mpr joinable.modules
        rw [opened] at run
        cases run
    | ok u fom =>
      have loaded := loads.mp ⟨fom, opened⟩
      rcases welcome_cases (f := f) (q := q) { f with core := f.core.labelled q.name, fom := fom }
        f.core.nextFederate rfl with ⟨others, link, answered⟩ | ⟨missing, e, refused⟩
      · exact ⟨fun _ => ⟨taken, loaded, others, link⟩, fun _ => answered⟩
      · simp only [refused, reduceCtorEq, exists_false, false_iff, not_and]
        intro _ joinable
        exact missing ⟨joinable.others, joinable.link⟩

/-- The newcomer is in the table before anything that may throw. -/
theorem add_error_inserted {e : RTIException} {f' : HostedFederation} (free : ¬f.NameTaken q)
    (refused : add disk q f = .error e f') :
    f'.core.federates.length = f.core.federates.length + 1 := by
  have taken_iff : f.core.federates.any (fun fed => fed.name = q.name) = true ↔ f.NameTaken q := by
    simp [HostedFederation.NameTaken, List.any_eq_true]
  unfold HostedFederation.add at refused
  rw [if_neg (fun any => free (taken_iff.mp any))] at refused
  cases opened : openFomModules disk q.additionalFomModules f.fom with
  | error e' fom =>
    rw [opened] at refused
    cases refused
    simp [Federation.inserted]
  | ok u fom =>
    rw [opened] at refused
    change f.welcome q f.core.nextFederate
      { f with core := f.core.labelled q.name, fom := fom } = .error e f' at refused
    rcases welcome_cases (f := f) (q := q) { f with core := f.core.labelled q.name, fom := fom }
      f.core.nextFederate rfl with ⟨_, _, answer, f'', answered⟩ | ⟨_, e', thrown⟩
    · rw [answered] at refused
      cases refused
    · rw [thrown] at refused
      cases refused
      simp [Federation.labelled, Federation.adjustFederate, Federation.inserted, Keyed.adjust]

theorem add_taken (taken : f.NameTaken q) :
    add disk q f = .error .federateAlreadyExecutionMember f := by
  unfold HostedFederation.add
  rw [if_pos]
  obtain ⟨fed, member, same⟩ := taken
  exact List.any_eq_true.mpr ⟨fed, member, by simpa using same⟩

/-- The members, labels and handles come out as in `Federation.add`, under the conditions the join
has met. -/
theorem add_core (disk : Disk) (f : HostedFederation) (q : JoinRequest) :
    ∃ conditions, (final (add disk q f)).core =
      { (f.core.add q.name conditions).state with root := f.core.root } := by
  unfold HostedFederation.add Federation.add
  by_cases taken : f.core.federates.any (fun fed => fed.name = q.name)
  · simp only [taken, if_true]
    exact ⟨⟨true, true⟩, rfl⟩
  · simp only [taken]
    cases opened : openFomModules disk q.additionalFomModules f.fom with
    | error e fom => exact ⟨⟨false, true⟩, rfl⟩
    | ok u fom =>
      rcases welcome_cases (f := f) (q := q) { f with core := f.core.labelled q.name, fom := fom }
        f.core.nextFederate rfl with ⟨_, _, answer, f', answered⟩ | ⟨_, e, thrown⟩
      · refine ⟨⟨true, true⟩, ?_⟩
        have core : f'.core = f.core.labelled q.name := welcome_core answered
        simp only [Bool.false_eq_true, if_false, answered, final, core]
        rfl
      · refine ⟨⟨true, false⟩, ?_⟩
        simp only [Bool.false_eq_true, if_false, thrown, final]
        rfl

/-- A connection a federate has joined over stays bound after it resigned. -/
theorem rejoin_refused (bound : ∃ t, f.sockets.getWithSocket q.socket = .ok t ∧ ¬t.Unbound) :
    ∃ e f', add disk q f = .error e f' := by
  cases added : add disk q f with
  | error e f' => exact ⟨e, f', rfl⟩
  | ok answer f' =>
    obtain ⟨_, joinable⟩ := add_ok_iff.mp ⟨answer, f', added⟩
    obtain ⟨t, found, bound⟩ := bound
    obtain ⟨t', found', unbound⟩ := joinable.link
    rw [found] at found'
    obtain rfl := Except.ok.inj found'
    exact absurd unbound bound

end Atomicity

/-- Nothing is found on this disk. -/
def emptyDisk : Disk where
  filepathOf _ := .error .couldNotOpenFED
  read _ := .error .couldNotOpenFED

/-- A federation nobody has joined, with one connection open. -/
def unjoined : HostedFederation where
  handle := 1
  core := .create smallFom false true
  fom := ⟨⟨{}, built_sound []⟩, []⟩
  sockets := ⟨0, [⟨0, 0, some 7, some 0⟩]⟩

end Certi
