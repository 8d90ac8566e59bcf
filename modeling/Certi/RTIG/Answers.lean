import Certi.LibCERTI.Discovery
import Certi.RTIG.Frames

/-!
# What each event may be answered with

Messages fall into topics, and an event is answered only with messages of the
topics its service is about. A property of one kind of message then concerns
the events of one topic only.
-/
namespace Certi

open Keyed

inductive Topic where
  | instances | time | synchronization | saving | membership
  deriving DecidableEq, Repr

def NetworkMessage.topic : NetworkMessage → Topic
  | .discoverObject .. | .removeObject .. => .instances
  | .messageNull .. | .setTimeRegulating .. | .timeRegulationEnabled .. => .time
  | .announceSynchronizationPoint .. | .confirmSynchronizationPointRegistration ..
  | .federationSynchronized .. => .synchronization
  | .initiateFederateSave .. | .federationSaved | .federationNotSaved => .saving
  | .joinFederationExecution .. | .resignFederationExecution .. => .membership

/-- The topics of the answers to an event. -/
def Event.topics : Event → List Topic
  | .join .. => [.time, .synchronization, .membership]
  | .resign .. => [.membership]
  | .kill .. => [.instances, .membership]
  | .setTimeRegulating .. | .messageNull .. | .setTimeConstrained .. => [.time]
  | .registerSynchronization .. | .synchronizationPointAchieved .. => [.synchronization]
  | .requestFederationSave .. | .federateSaveBegun .. | .federateSaveStatus .. => [.saving]
  | .publishObject .. | .subscribeObject .. | .subscribeAttributesWR ..
  | .unsubscribeAttributesWR .. | .publishInteraction .. | .subscribeInteraction ..
  | .subscribeInteractionWR .. | .createRegion .. | .associateRegion .. | .registerObject ..
  | .registerObjectWithRegion .. | .deleteObject .. | .ownership .. => [.instances]

/-- Every message is about one of the topics. -/
def Responses.About (topics : List Topic) (sent : Responses) : Prop :=
  ∀ response ∈ sent, response.2.topic ∈ topics

namespace Responses

variable {topics : List Topic} {sent sent' : Responses}

@[simp] theorem about_nil : Responses.About topics [] := by simp [About]

theorem About.append (first : About topics sent) (second : About topics sent') :
    About topics (sent ++ sent') := by
  intro response member
  rcases List.mem_append.mp member with left | right
  · exact first response left
  · exact second response right

end Responses

open Responses

namespace RootObject

variable {server : SecurityServer} {sender : FederateHandle} {root : RootObject}

theorem broadcastUp_about {message : ObjectClassHandle → NetworkMessage}
    (instances : ∀ h, (message h).topic = .instances) {classes : List ObjectClass}
    {lines : BroadcastLines} {sent : Responses}
    (success : broadcastUp server sender message lines classes = .ok sent) :
    About [.instances] sent := by
  intro response member
  obtain ⟨c, _, result⟩ := broadcastUp_sent success response member
  simp [result, instances]

theorem recursiveDiscovering_sent {classes : List ObjectClass} {objects : List Object}
    {fed : FederateHandle} {subscription : ObjectClassHandle} (fuel : Nat) :
    ∀ c : ObjectClass, ∀ response ∈ recursiveDiscovering classes objects fed subscription fuel c,
      ∃ o ∈ objects, response = (fed, .discoverObject fed subscription o.handle o.name) := by
  induction fuel with
  | zero => simp [recursiveDiscovering]
  | succ fuel ih =>
    intro c response member
    unfold recursiveDiscovering at member
    split at member
    · cases member
    · rcases List.mem_append.mp member with here | below
      · obtain ⟨o, belongs, rfl⟩ := List.mem_map.mp here
        exact ⟨o, List.mem_of_mem_filter belongs, rfl⟩
      · obtain ⟨sub, _, deeper⟩ := List.mem_flatMap.mp below
        exact ih sub response deeper

theorem subscribe_about (fed : FederateHandle) (h : ObjectClassHandle) (hs : List AttributeHandle)
    (region : Option RegionHandle) : About [.instances] (root.subscribe fed h hs region).sent := by
  unfold subscribe
  split
  · exact about_nil
  · split
    · exact about_nil
    · dsimp only [Outcome.done]
      split
      · intro response member
        obtain ⟨o, _, rfl⟩ := recursiveDiscovering_sent _ _ response member
        simp [NetworkMessage.topic]
      · exact about_nil

theorem registerObjectInstance_about (fed : FederateHandle) (classHandle : ObjectClassHandle)
    (object : ObjectHandle) (name : String) :
    About [.instances] (root.registerObjectInstance fed classHandle object name).sent := by
  rcases registerObjectInstance_cases root fed classHandle object name with
    ⟨e, refused⟩ | ⟨c, sent, accepted⟩
  · rw [refused]
    exact about_nil
  · rw [accepted.outcome]
    exact broadcastUp_about (fun _ => rfl) accepted.broadcast

theorem deleteObjectInstance_about (fed : FederateHandle) (object : ObjectHandle) :
    About [.instances] (root.deleteObjectInstance fed object).sent := by
  unfold deleteObjectInstance
  split
  · exact about_nil
  · split
    · exact about_nil
    · split
      · exact about_nil
      · rename_i sent success
        exact broadcastUp_about (fun _ => rfl) success

theorem killInClass_about (fed : FederateHandle) (h : ObjectClassHandle) (owned : List Object) :
    ∀ root : RootObject, About [.instances] (killInClass fed h root owned).2 := by
  induction owned with
  | nil => exact fun _ => about_nil
  | cons o rest ih =>
    intro root
    refine About.append ?_ (ih _)
    split
    · exact about_nil
    · rename_i sent success
      exact broadcastUp_about (fun _ => rfl) success

theorem killClasses_about (fed : FederateHandle) (hs : List ObjectClassHandle) :
    ∀ root : RootObject, About [.instances] (killClasses fed root hs).2 := by
  induction hs with
  | nil => exact fun _ => about_nil
  | cons h rest ih => exact fun root => (killInClass_about fed h _ root).append (ih _)

theorem declareInteraction_sent (h : InteractionClassHandle)
    (f : Interaction → Except RTIException Interaction) :
    (root.declareInteraction h f).sent = [] := by
  unfold declareInteraction
  split
  · rfl
  · split <;> rfl

theorem publish_sent (fed : FederateHandle) (h : ObjectClassHandle) (hs : List AttributeHandle)
    (flag : Bool) : (root.publish fed h hs flag).sent = [] := by
  unfold publish
  split <;> rfl

theorem unsubscribeWith_sent (fed : FederateHandle) (h : ObjectClassHandle)
    (region : Option RegionHandle) : (root.unsubscribeWith fed h region).sent = [] := by
  unfold unsubscribeWith
  split <;> rfl

theorem ownershipService_sent (object : ObjectHandle)
    (service : ObjectClass → Object → Transfer × Option RTIException) :
    (root.ownershipService object service).1.sent = [] := by
  unfold ownershipService
  split
  · rfl
  · split <;> rfl

theorem associate_sent (object : ObjectHandle) (region : RegionHandle) (hs : List AttributeHandle) :
    (root.associate object region hs).sent = [] := by
  unfold associate
  split <;> rfl

end RootObject

namespace Federation

variable {f : Federation} {topics : List Topic}

/-- A broadcast of one message is about its topic. -/
theorem respondToAll_about {message : NetworkMessage} {except : FederateHandle} {sent : Responses}
    (success : f.respondToAll message except = .ok sent) : About [message.topic] sent := by
  unfold respondToAll at success
  dsimp only at success
  split at success
  · cases success
    intro response member
    obtain ⟨g, _, rfl⟩ := List.mem_map.mp member
    exact List.mem_cons_self
  · cases success

theorem respondToSome_about {message : NetworkMessage} {recipients : List FederateHandle}
    {sent : Responses} (success : f.respondToSome message recipients = .ok sent) :
    About [message.topic] sent := by
  unfold respondToSome at success
  split at success
  · cases success
    intro response member
    obtain ⟨g, _, rfl⟩ := List.mem_map.mp member
    exact List.mem_cons_self
  · cases success

theorem answering_about {state : Federation} {last : Except RTIException Responses}
    (about : ∀ sent, last = .ok sent → About topics sent) :
    About topics (answering state [] last).sent := by
  cases last with
  | ok sent => exact about sent rfl
  | error e => exact about_nil

theorem memberOnRoot_about {fed : FederateHandle} {service : RootObject → Outcome RootObject}
    (about : About topics (service f.root).sent) :
    About topics (f.memberOnRoot fed service).sent :=
  asMember_cases (p := fun outcome => About topics outcome.sent) about_nil fun _ => about

theorem memberWithRegion_about {fed : FederateHandle} {region : RegionHandle}
    {service : RootObject → Outcome RootObject} (about : About topics (service f.root).sent) :
    About topics (f.memberWithRegion fed region service).sent := by
  refine memberOnRoot_about ?_
  split
  · exact about_nil
  · exact about

theorem addRegulator_about (h : FederateHandle) (date : Date) :
    About [.time] (f.addRegulator h date).sent := by
  refine withFederate_cases (p := fun outcome => About [.time] outcome.sent) about_nil ?_
  intro fed found
  split
  · exact about_nil
  · dsimp only
    split
    · exact about_nil
    · split
      · exact about_nil
      · rename_i sent success
        refine (respondToAll_about success).append ?_
        simp [About, NetworkMessage.topic]

theorem removeRegulator_about (h : FederateHandle) :
    About [.time] (f.removeRegulator h).sent := by
  refine withFederate_cases (p := fun outcome => About [.time] outcome.sent) about_nil ?_
  intro fed found
  split
  · exact about_nil
  · dsimp only
    split
    · exact about_nil
    · exact answering_about fun sent success => respondToAll_about success

theorem updateRegulator_about (h : FederateHandle) (date : Date) :
    About [.time] (f.updateRegulator h date).sent := by
  refine withFederate_cases (p := fun outcome => About [.time] outcome.sent) about_nil ?_
  intro fed found
  split
  · exact about_nil
  · split
    · exact about_nil
    · exact answering_about fun sent success => respondToAll_about success

theorem processRegisterSynchronization_about (h : FederateHandle) (label tag : String)
    (set : Option (List FederateHandle)) :
    About [.synchronization] (f.processRegisterSynchronization h label tag set).sent := by
  unfold processRegisterSynchronization
  dsimp only
  split
  · exact about_nil
  · simp [About, NetworkMessage.topic]
  · split
    · exact about_nil
    · rename_i sent success
      refine About.append ?_ (by simp [About, NetworkMessage.topic])
      cases set with
      | some set => exact respondToSome_about success
      | none => exact respondToAll_about success

theorem unregisterSynchronization_about (h : FederateHandle) (label : String) :
    About [.synchronization] (f.unregisterSynchronization h label).sent := by
  refine asMember_cases (p := fun outcome => About [.synchronization] outcome.sent) about_nil ?_
  intro _
  split
  · exact about_nil
  · refine withFederate_cases (p := fun outcome => About [.synchronization] outcome.sent)
      about_nil ?_
    intro fed found
    split
    · exact about_nil
    · dsimp only
      split
      · exact about_nil
      · exact answering_about fun sent success => respondToAll_about success

theorem requestFederationSave_about (h : FederateHandle) (label : String) (timed : Bool) :
    About [.saving] (f.requestFederationSave h label timed).sent := by
  refine asMember_cases (p := fun outcome => About [.saving] outcome.sent) about_nil ?_
  intro _
  split
  · exact about_nil
  · dsimp only
    split
    · exact about_nil
    · rename_i sent success
      exact respondToAll_about success

theorem federateSaveStatus_about (h : FederateHandle) (status : Bool) :
    About [.saving] (f.federateSaveStatus h status).sent := by
  refine withFederate_cases (p := fun outcome => About [.saving] outcome.sent) about_nil ?_
  intro fed found
  dsimp only
  split
  · exact about_nil
  · split
    · exact about_nil
    · rename_i sent success
      have about := respondToAll_about success
      split at about <;> exact about

theorem add_about (name : String) (conditions : JoinConditions) :
    About [.time, .synchronization, .membership] (f.add name conditions).sent := by
  rcases add_outcomes f name conditions with result | result | result | result <;> rw [result]
  · exact about_nil
  · exact about_nil
  · exact about_nil
  · refine About.append (About.append ?_ ?_) ?_
    · intro response member
      obtain ⟨clock, _, rfl⟩ := List.mem_map.mp member
      simp [NetworkMessage.topic]
    · intro response member
      obtain ⟨label, _, rfl⟩ := List.mem_map.mp member
      simp [NetworkMessage.topic]
    · simp [About, NetworkMessage.topic]

theorem kill_about (h : FederateHandle) :
    About [.instances, .membership] (f.kill h).sent := by
  rcases kill_cases f h with refused | ⟨_, _, sent, _⟩
  · rw [refused]
    exact about_nil
  · rw [sent]
    refine About.append ?_ (by simp [About, NetworkMessage.topic])
    intro response member
    have about := RootObject.killClasses_about h _ _ response member
    exact List.mem_cons.mpr (.inl (List.mem_singleton.mp about))

theorem registerObjectWithRegion_about (h : FederateHandle) (classHandle : ObjectClassHandle)
    (name : String) (region : RegionHandle) (hs : List AttributeHandle) :
    About [.instances] (f.registerObjectWithRegion h classHandle name region hs).sent := by
  refine asMember_cases (p := fun outcome => About [.instances] outcome.sent) about_nil ?_
  intro _
  have registered : About [.instances] (f.registerObject h classHandle name).sent :=
    RootObject.registerObjectInstance_about h classHandle _ _
  dsimp only
  split
  · exact registered
  · split
    · exact about_nil
    · exact registered

/-- Every event is answered only with messages of its topics. -/
theorem perform_about (f : Federation) (e : Event) : About e.topics (f.perform e).sent := by
  cases e with
  | join name conditions => exact add_about name conditions
  | resign fed =>
    rcases remove_cases f fed with refused | ⟨_, removed⟩
    · change About _ (f.remove fed).sent
      rw [refused]
      exact about_nil
    · change About _ (f.remove fed).sent
      rw [removed]
      simp [About, Outcome.done, NetworkMessage.topic, Event.topics]
  | kill fed => exact kill_about fed
  | setTimeRegulating fed on date =>
    cases on with
    | true => exact addRegulator_about fed date
    | false => exact removeRegulator_about fed
  | messageNull fed date => exact updateRegulator_about fed date
  | setTimeConstrained fed on =>
    refine withFederate_cases (p := fun outcome => About [.time] outcome.sent) about_nil ?_
    intro record _
    split <;> exact about_nil
  | registerSynchronization fed label tag set =>
    exact processRegisterSynchronization_about fed label tag set
  | synchronizationPointAchieved fed label => exact unregisterSynchronization_about fed label
  | requestFederationSave fed label timed => exact requestFederationSave_about fed label timed
  | federateSaveBegun fed =>
    exact asMember_cases (p := fun outcome => About [.saving] outcome.sent) about_nil
      fun _ => about_nil
  | federateSaveStatus fed complete => exact federateSaveStatus_about fed complete
  | publishObject fed c hs flag =>
    refine memberOnRoot_about ?_
    rw [RootObject.publish_sent]
    exact about_nil
  | subscribeObject fed c hs =>
    exact memberOnRoot_about (RootObject.subscribe_about fed c hs none)
  | subscribeAttributesWR fed c region hs =>
    exact memberWithRegion_about (RootObject.subscribe_about fed c hs (some region))
  | unsubscribeAttributesWR fed c region =>
    refine memberWithRegion_about ?_
    rw [RootObject.unsubscribeWith_sent]
    exact about_nil
  | publishInteraction fed i flag =>
    refine memberOnRoot_about ?_
    rw [RootObject.publishInteraction, RootObject.declareInteraction_sent]
    exact about_nil
  | subscribeInteraction fed i flag =>
    refine memberOnRoot_about ?_
    rw [RootObject.subscribeInteraction, RootObject.declareInteraction_sent]
    exact about_nil
  | subscribeInteractionWR fed i region flag =>
    refine memberWithRegion_about ?_
    rw [RootObject.subscribeInteraction, RootObject.declareInteraction_sent]
    exact about_nil
  | createRegion fed space extents =>
    refine memberOnRoot_about ?_
    unfold RootObject.createRegion
    split
    · exact about_nil
    · split <;> exact about_nil
  | associateRegion fed object region hs =>
    refine memberOnRoot_about ?_
    rw [RootObject.associate_sent]
    exact about_nil
  | registerObject fed c name => exact RootObject.registerObjectInstance_about fed c _ _
  | registerObjectWithRegion fed c name region hs =>
    exact registerObjectWithRegion_about fed c name region hs
  | deleteObject fed object =>
    exact memberOnRoot_about (RootObject.deleteObjectInstance_about fed object)
  | ownership service fed object hs =>
    refine asMember_cases (p := fun outcome => About [.instances] outcome.sent) about_nil fun _ => ?_
    change About [.instances] (f.root.ownershipService object (service.perform fed hs)).1.sent
    rw [RootObject.ownershipService_sent]
    exact about_nil

end Federation

end Certi
