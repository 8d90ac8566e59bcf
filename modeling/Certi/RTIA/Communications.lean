import Certi.Lib.Runs
import Certi.LibCERTI.Types

/-!
# Messages from the RTIG

`RTIA/Communications.cc`: `waitMessage` sets aside the messages in front of the one
it waits for, `readMessage` gives those first. What has arrived and was not returned
yet stays in the order of arrival, over the waiting list and the link together.
`τ` are the types of messages; a message that the factory refuses is no message here.
-/
namespace Certi

open Runs

structure TcpMessage (τ : Type) where
  type : τ
  federate : FederateHandle
  contents : Nat
  deriving DecidableEq

/-- `awaited` is the call of `waitMessage` that blocks on the link. -/
structure Communications (τ : Type) where
  waitingList : List (TcpMessage τ)
  socketTCP : List (TcpMessage τ)
  awaited : Option (τ × FederateHandle)

/-- `receive` is a turn of the loop in `waitMessage`. `network` is a pointer given for a network
message; `other` says that `readMessage` finds data of UDP or of the federate and none of TCP
in the buffers. -/
inductive IntakeEvent (τ : Type) where
  | arrives (m : TcpMessage τ)
  | waitMessage (type : τ) (federate : FederateHandle)
  | receive
  | readMessage (network other : Bool)

namespace Communications

variable {τ : Type} [DecidableEq τ]

/-- Federate 0 stands for any. -/
def expected (call : τ × FederateHandle) (m : TcpMessage τ) : Bool :=
  m.type = call.1 && (m.federate = call.2 || call.2 = 0)

/-- The first message of the list that is expected, and the list without it. -/
def searchMessage (call : τ × FederateHandle) :
    List (TcpMessage τ) → Option (TcpMessage τ × List (TcpMessage τ))
  | [] => none
  | m :: rest =>
    if expected call m then some (m, rest)
    else (searchMessage call rest).map fun found => (found.1, m :: found.2)

def waitMessage (c : Communications τ) (call : τ × FederateHandle) :
    Communications τ × Option (TcpMessage τ) :=
  match searchMessage call c.waitingList with
  | some (m, rest) => ({ c with waitingList := rest }, some m)
  | none => ({ c with awaited := some call }, none)

/-- A message that is not expected goes to the end of the waiting list. -/
def receive (c : Communications τ) : Communications τ × Option (TcpMessage τ) :=
  match c.awaited, c.socketTCP with
  | some call, m :: rest =>
    if expected call m then ({ c with socketTCP := rest, awaited := none }, some m)
    else ({ c with socketTCP := rest, waitingList := c.waitingList ++ [m] }, none)
  | _, _ => (c, none)

def readMessage (c : Communications τ) (network other : Bool) :
    Communications τ × Option (TcpMessage τ) :=
  match network, c.waitingList, other, c.socketTCP with
  | true, m :: rest, _, _ => ({ c with waitingList := rest }, some m)
  | true, [], false, m :: rest => ({ c with socketTCP := rest }, some m)
  | _, _, _, _ => (c, none)

/-- What has arrived and was not returned. -/
def remaining (c : Communications τ) : List (TcpMessage τ) := c.waitingList ++ c.socketTCP

end Communications

open Communications

variable {τ : Type} [DecidableEq τ]

/-- While a call blocks there is no other. -/
def intake : Machine (Communications τ) (IntakeEvent τ) (Option (TcpMessage τ)) := fun c e =>
  match e, c.awaited with
  | .arrives m, _ => ({ c with socketTCP := c.socketTCP ++ [m] }, none)
  | .receive, _ => c.receive
  | .waitMessage type federate, none => c.waitMessage (type, federate)
  | .readMessage network other, none => c.readMessage network other
  | .waitMessage .., some _ | .readMessage .., some _ => (c, none)

/-! ## What a run is to do -/

def IntakeEvent.arrived : IntakeEvent τ → List (TcpMessage τ)
  | arrives m => [m]
  | waitMessage .. | receive | readMessage .. => []

def IntakeEvent.isRead : IntakeEvent τ → Bool
  | readMessage .. => true
  | arrives _ | waitMessage .. | receive => false

abbrev IntakePast (τ : Type) := List (IntakeEvent τ × Option (TcpMessage τ))

def arrivedBy (past : IntakePast τ) : List (TcpMessage τ) :=
  past.flatMap fun entry => entry.1.arrived

def returnedBy (past : IntakePast τ) : List (TcpMessage τ) :=
  past.flatMap fun entry => entry.2.toList

/-- The messages that `readMessage` returned. -/
def readBy (past : IntakePast τ) : List (TcpMessage τ) :=
  past.flatMap fun entry => if entry.1.isRead then entry.2.toList else []

/-- `m` is the earliest expected message of the list, which is left without it. -/
def Earliest (call : τ × FederateHandle) (m : TcpMessage τ) (l left : List (TcpMessage τ)) :
    Prop :=
  ∃ before after, l = before ++ m :: after ∧ left = before ++ after ∧ expected call m = true ∧
    ∀ n ∈ before, expected call n = false

/-- What an event does to the remaining messages, and what it returns of them. -/
def Serves (c : Communications τ) (e : IntakeEvent τ) : Prop :=
  let next := (intake c e).1
  match e, (intake c e).2 with
  | .arrives m, answer => answer = none ∧ next.remaining = c.remaining ++ [m]
  | .waitMessage type federate, some m =>
    Earliest (type, federate) m c.remaining next.remaining
  | .receive, some m => ∃ call, c.awaited = some call ∧
      Earliest call m c.remaining next.remaining
  | .readMessage .., some m => c.remaining = m :: next.remaining
  | _, none => next.remaining = c.remaining

/-- A call that waits for a message on the link returns it after the turns that lead to it. -/
def AwaitedServed (c : Communications τ) : Prop :=
  ∀ call before m after, c.awaited = some call → c.socketTCP = before ++ m :: after →
    (∀ n ∈ before, expected call n = false) → expected call m = true →
      (intake (intake.exec c (List.replicate before.length .receive)) .receive).2 = some m

/-- A read finds the front of the remaining messages, wherever it is. -/
def ReadServed (c : Communications τ) : Prop :=
  c.awaited = none → (intake c (.readMessage true false)).2 = c.remaining.head?

namespace Communications

theorem searchMessage_some {call : τ × FederateHandle} {m : TcpMessage τ}
    {l left : List (TcpMessage τ)} (found : searchMessage call l = some (m, left)) :
    Earliest call m l left := by
  induction l generalizing left with
  | nil => cases found
  | cons n rest ih =>
    unfold searchMessage at found
    split at found
    · rename_i here
      cases found
      exact ⟨[], _, rfl, rfl, here, by simp⟩
    · rename_i other
      obtain ⟨⟨m', left'⟩, deeper, same⟩ := Option.map_eq_some_iff.mp found
      cases same
      obtain ⟨before, after, whole, without, matched, first⟩ := ih deeper
      refine ⟨n :: before, after, by rw [whole]; rfl, by rw [without]; rfl, matched, ?_⟩
      intro k member
      cases List.mem_cons.mp member with
      | inl same => rw [same]; exact Bool.eq_false_iff.mpr other
      | inr later => exact first k later

theorem searchMessage_none {call : τ × FederateHandle} {l : List (TcpMessage τ)}
    (none : searchMessage call l = none) : ∀ n ∈ l, expected call n = false := by
  induction l with
  | nil => simp
  | cons m rest ih =>
    unfold searchMessage at none
    split at none
    · cases none
    · rename_i other
      intro n member
      cases List.mem_cons.mp member with
      | inl same => rw [same]; exact Bool.eq_false_iff.mpr other
      | inr later => exact ih (Option.map_eq_none_iff.mp none) n later

omit [DecidableEq τ] in
theorem readMessage_awaited (c : Communications τ) (network other : Bool) :
    (c.readMessage network other).1.awaited = c.awaited := by
  unfold readMessage
  split <;> rfl

/-- A call blocks only when nothing that was set aside is expected. -/
def Searched (c : Communications τ) : Prop :=
  ∀ call, c.awaited = some call → ∀ n ∈ c.waitingList, expected call n = false

end Communications

open Communications

theorem Earliest.append {call : τ × FederateHandle} {m : TcpMessage τ}
    {l left : List (TcpMessage τ)} (earliest : Earliest call m l left)
    (more : List (TcpMessage τ)) : Earliest call m (l ++ more) (left ++ more) := by
  obtain ⟨before, after, rfl, rfl, matched, first⟩ := earliest
  exact ⟨before, after ++ more, by simp, by simp, matched, first⟩

theorem searched_step {c : Communications τ} (searched : c.Searched) (e : IntakeEvent τ) :
    (intake c e).1.Searched := by
  obtain ⟨waitingList, socketTCP, awaited⟩ := c
  cases e with
  | arrives m => exact searched
  | waitMessage type federate =>
    cases awaited with
    | some call => exact searched
    | none =>
      cases found : searchMessage (type, federate) waitingList with
      | some answer => simp [intake, Communications.waitMessage, found, Searched]
      | none =>
        simp only [intake, Communications.waitMessage, found, Searched, Option.some.injEq]
        rintro _ rfl
        exact searchMessage_none found
  | receive =>
    cases awaited with
    | none => exact searched
    | some call =>
      cases socketTCP with
      | nil => exact searched
      | cons m rest =>
        by_cases here : expected call m = true
        · simp [intake, Communications.receive, here, Searched]
        · have aside := searched call rfl
          simp only [intake, Communications.receive, here, Searched]
          rintro _ ⟨⟩ n member
          cases List.mem_append.mp member with
          | inl before => exact aside n before
          | inr last =>
            rw [List.mem_singleton.mp last]
            exact Bool.eq_false_iff.mpr here
  | readMessage network other =>
    cases awaited with
    | some call => exact searched
    | none =>
      intro call blocked
      have free := readMessage_awaited ⟨waitingList, socketTCP, none⟩ network other
      cases free.symm.trans blocked

theorem serves_step {c : Communications τ} (searched : c.Searched) (e : IntakeEvent τ) :
    Serves c e := by
  obtain ⟨waitingList, socketTCP, awaited⟩ := c
  cases e with
  | arrives m => exact ⟨rfl, (List.append_assoc _ _ _).symm⟩
  | waitMessage type federate =>
    cases awaited with
    | some call => rfl
    | none =>
      cases found : searchMessage (type, federate) waitingList with
      | none => simp [Serves, intake, Communications.waitMessage, found, remaining]
      | some answer =>
        obtain ⟨m, rest⟩ := answer
        simp only [Serves, intake, Communications.waitMessage, found, remaining]
        exact (searchMessage_some found).append socketTCP
  | receive =>
    cases awaited with
    | none => rfl
    | some call =>
      cases socketTCP with
      | nil => rfl
      | cons m rest =>
        by_cases here : expected call m = true
        · simp only [Serves, intake, Communications.receive, here, remaining, if_true]
          exact ⟨call, rfl, waitingList, rest, rfl, rfl, here, searched call rfl⟩
        · simp [Serves, intake, Communications.receive, here, remaining]
  | readMessage network other =>
    cases awaited with
    | some call => rfl
    | none =>
      cases network <;> cases waitingList <;> cases other <;> cases socketTCP <;> rfl

/-! ## Runs -/

/-- Nothing is lost or returned twice, and the messages that are read keep their order. -/
structure IntakeLawful (past : IntakePast τ) (c : Communications τ) : Prop where
  searched : c.Searched
  once : (returnedBy past ++ c.remaining).Perm (arrivedBy past)
  inOrder : (readBy past ++ c.remaining).Sublist (arrivedBy past)

theorem Earliest.perm {call : τ × FederateHandle} {m : TcpMessage τ} {l left : List (TcpMessage τ)}
    (earliest : Earliest call m l left) : (m :: left).Perm l := by
  obtain ⟨before, after, rfl, rfl, -, -⟩ := earliest
  exact List.perm_middle.symm

theorem Earliest.sublist {call : τ × FederateHandle} {m : TcpMessage τ}
    {l left : List (TcpMessage τ)} (earliest : Earliest call m l left) : left.Sublist l := by
  obtain ⟨before, after, rfl, rfl, -, -⟩ := earliest
  exact List.Sublist.append_left (List.sublist_cons_self m after) before

/-- An event hands over or keeps what was remaining, and adds what arrives. -/
theorem Serves.account {c : Communications τ} {e : IntakeEvent τ} (serves : Serves c e) :
    ((intake c e).2.toList ++ (intake c e).1.remaining).Perm (c.remaining ++ e.arrived) ∧
      ((if e.isRead then (intake c e).2.toList else []) ++ (intake c e).1.remaining).Sublist
        (c.remaining ++ e.arrived) := by
  unfold Serves at serves
  generalize intake c e = result at serves ⊢
  obtain ⟨next, answer⟩ := result
  cases e with
  | arrives m =>
    obtain ⟨none, kept⟩ := serves
    dsimp only at none kept ⊢
    rw [none, kept]
    exact ⟨List.Perm.refl _, List.Sublist.refl _⟩
  | waitMessage type federate =>
    cases answer with
    | none => simp_all [IntakeEvent.arrived, IntakeEvent.isRead]
    | some m =>
      have earliest : Earliest (type, federate) m c.remaining next.remaining := serves
      simpa [IntakeEvent.arrived, IntakeEvent.isRead] using ⟨earliest.perm, earliest.sublist⟩
  | receive =>
    cases answer with
    | none => simp_all [IntakeEvent.arrived, IntakeEvent.isRead]
    | some m =>
      obtain ⟨call, -, earliest⟩ := serves
      simpa [IntakeEvent.arrived, IntakeEvent.isRead] using ⟨earliest.perm, earliest.sublist⟩
  | readMessage network other =>
    cases answer with
    | none => simp_all [IntakeEvent.arrived, IntakeEvent.isRead]
    | some m =>
      have front : c.remaining = m :: next.remaining := serves
      simp [IntakeEvent.arrived, IntakeEvent.isRead, front]

theorem IntakeLawful.step {past : IntakePast τ} {c : Communications τ}
    (lawful : IntakeLawful past c) (e : IntakeEvent τ) :
    IntakeLawful (past ++ [(e, (intake c e).2)]) (intake c e).1 := by
  obtain ⟨perm, sublist⟩ := (serves_step lawful.searched e).account
  refine ⟨searched_step lawful.searched e, ?_, ?_⟩
  · have before := lawful.once
    simp only [returnedBy, arrivedBy, List.flatMap_append, List.flatMap_cons, List.flatMap_nil,
      List.append_nil, List.append_assoc] at before ⊢
    have moved := List.Perm.append_left (past.flatMap fun entry => entry.2.toList) perm
    have added := List.Perm.append_right e.arrived before
    rw [List.append_assoc] at added
    exact moved.trans added
  · have before := lawful.inOrder
    simp only [readBy, arrivedBy, List.flatMap_append, List.flatMap_cons, List.flatMap_nil,
      List.append_nil, List.append_assoc] at before ⊢
    have moved := List.Sublist.append_left sublist
      (past.flatMap fun entry => if entry.1.isRead then entry.2.toList else [])
    have added := List.Sublist.append_right before e.arrived
    rw [List.append_assoc] at added
    exact moved.trans added

/-- The turns of the loop up to the message that is waited for. -/
theorem receive_turns {call : τ × FederateHandle} (before : List (TcpMessage τ)) {m : TcpMessage τ}
    {after : List (TcpMessage τ)} (waitingList : List (TcpMessage τ))
    (first : ∀ n ∈ before, expected call n = false) :
    intake.exec ⟨waitingList, before ++ m :: after, some call⟩
        (List.replicate before.length .receive) =
      ⟨waitingList ++ before, m :: after, some call⟩ := by
  induction before generalizing waitingList with
  | nil => simp
  | cons n rest ih =>
    have other := first n List.mem_cons_self
    have turn : (intake ⟨waitingList, n :: (rest ++ m :: after), some call⟩ .receive).1 =
        ⟨waitingList ++ [n], rest ++ m :: after, some call⟩ := by
      simp [intake, Communications.receive, other]
    rw [List.length_cons, List.replicate_succ, List.cons_append, Machine.exec_cons, turn,
      ih (waitingList ++ [n]) fun k member => first k (List.mem_cons_of_mem n member),
      List.append_assoc]
    rfl

theorem awaited_served (c : Communications τ) : AwaitedServed c := by
  obtain ⟨waitingList, socketTCP, awaited⟩ := c
  intro call before m after blocked link first here
  dsimp only at blocked link
  rw [blocked, link, receive_turns before waitingList first]
  simp [intake, Communications.receive, here]

theorem read_served (c : Communications τ) : ReadServed c := by
  obtain ⟨waitingList, socketTCP, awaited⟩ := c
  intro free
  dsimp only at free
  rw [free]
  cases waitingList <;> cases socketTCP <;> rfl

end Certi
