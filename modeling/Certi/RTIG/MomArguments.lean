import Certi.LibHLA.RoundTrip
import Certi.RTIG.Mom

/-!
# Where the MOM's arguments come from

Every handler should get the values that the sender gave for its parameters.
The handles of the parameters are remembered under their names alone, and a
list of attribute handles is not read the way it is written.
-/
namespace Certi.MOM

open Bytes Keyed Modules MessageBuffer Throwing

/-! ## What a value encodes -/

def word32 (host : Host) (n : UInt32T) : List Byte := layout host.order 4 n

/-- The octets that `encodeUInt32`, `encodeBoolean`, `encodeString`, `encodeVectorHandle` and
`encodeTime` write for an argument. -/
def Encodes (host : Host) (data : ParameterValue) : Argument → Prop
  | .uint32 n => data = word32 host n
  | .boolean b => data = word32 host (if b then 1 else 0)
  | .string s => data = wire host.order (.string s)
  | .resignAction action => ∃ n, resignActionOf n = action ∧ data = word32 host n
  | .vectorAttributeHandle handles =>
    data = word32 host (BitVec.ofNat 32 handles.length) ++ handles.flatMap (word32 host)
  | .federationTime time => data = layout host.order 8 time
  | .orderType order => ∃ n, orderTypeOf n = order ∧ data = word32 host n

def Argument.decoder : Argument → Decoder
  | .uint32 _ => .uint32
  | .boolean _ => .boolean
  | .string _ => .string
  | .resignAction _ => .resignAction
  | .vectorAttributeHandle _ => .vectorAttributeHandle
  | .federationTime _ => .federationTime
  | .orderType _ => .orderType

/-- An argument the decoders read as it is written: lists only when they are empty, and the
first octet of a word is its value only where words are little-endian. -/
def Plain (host : Host) : Argument → Prop
  | .boolean b => b = true → host.isBigEndian = false
  | .vectorAttributeHandle handles => handles = []
  | _ => True

/-! ## Decoding -/

/-- A buffer filled with `data`, from its first octet on. -/
structure Filled (host : Host) (data : ParameterValue) (b : MessageBuffer) : Prop where
  fit : Fit b
  room : 5 < b.bufferMaxSize.toNat
  order : order host b = host.order
  start : b.readOffset.toNat = 5
  stop : b.writeOffset.toNat = 5 + data.length
  unread : b.unread = data

theorem fill_ok {mb : MessageBuffer} (host : Host) {data : ParameterValue} (fit : Fit mb)
    (room : 5 < mb.bufferMaxSize.toNat) (small : data.length < 2 ^ 31) :
    ∃ b, fill host data mb = .ok () b ∧ Filled host data b := by
  obtain ⟨memory, cleared, length⟩ := reset_ok host fit room
  have empty : Fit { mb with
      buffer := memory
      bufferHasMyEndianness := true
      writeOffset := reservedBytes
      readOffset := reservedBytes } := by
    constructor
    · exact length.trans fit.sized
    · exact Nat.le_of_lt room
  have five : BitVec.toNat reservedBytes = 5 := by simp [reservedBytes]
  obtain ⟨off, b, wrote, appended⟩ := write_uint8s_ok host data empty (by
    simp only [five]
    omega)
  refine ⟨b, ?_, ?_⟩
  · rw [fill, bind_ok cleared, write_chars, bind_ok wrote, pure_apply]
  · have stop := appended.offset
    simp only [five] at stop
    exact {
      fit := appended.fit
      room := Nat.lt_of_lt_of_le room appended.grown
      order := by simp [MessageBuffer.order, appended.endianness]
      start := by rw [appended.readOffset, five]
      stop := stop
      unread := by
        rw [MessageBuffer.unread, appended.readOffset, appended.contents, five]
        apply List.drop_left'
        rw [empty.length_contents, five] }

theorem Filled.inside {host : Host} {data : ParameterValue} {b : MessageBuffer}
    (filled : Filled host data b) {n : Nat} (enough : n ≤ data.length) :
    b.readOffset.toNat + n ≤ b.writeOffset.toNat := by
  rw [filled.start, filled.stop]
  omega

/-- A word that comes first. -/
theorem read_uint32_first {host : Host} {n : UInt32T} {rest : List Byte} {b : MessageBuffer}
    (filled : Filled host (word32 host n ++ rest) b) :
    read_uint32 host b = .ok n (b.advance 4) := by
  obtain ⟨x, done, same⟩ := retval_ok (read_uint32s_ok (n := 1) host filled.fit
    (filled.inside (by simp [word32])))
  have back : x = n := by
    apply same n rest
    rw [filled.order]
    exact filled.unread
  rw [read_uint32, done, back]

/-- An item that comes first. -/
theorem read_first {host : Host} {item : Item} {rest : List Byte} {b : MessageBuffer}
    (filled : Filled host (wire host.order item ++ rest) b) (small : item.size < 2 ^ 31) :
    MessageBuffer.read host item.request b = .ok item (b.advance item.size) := by
  have ahead : b.readOffset.toNat ≤ b.writeOffset.toNat := by
    rw [filled.start, filled.stop]
    omega
  have next : b.unread = wire (order host b) item ++ rest := by rw [filled.unread, filled.order]
  exact read_written filled.fit ahead next small

/-- A typed read from the read of an item. -/
theorem read_inside {α : Type} {m : Access α} {f : α → Item} (inj : Function.Injective f) {a : α}
    {b c : MessageBuffer} (whole : (do return f (← m)) b = .ok (f a) c) : m b = .ok a c := by
  obtain ⟨x, d, done, returned⟩ := bind_returns whole
  rw [pure_apply, EStateM.Result.ok.injEq] at returned
  rw [done, inj returned.1, returned.2]

theorem read_bool_first {host : Host} {flag : Bool} {rest : List Byte} {b : MessageBuffer}
    (filled : Filled host (wire host.order (.bool flag) ++ rest) b) :
    read_bool b = .ok flag (b.advance 1) := by
  apply read_inside (f := Item.bool) (fun _ _ same => by cases same; rfl)
  exact read_first filled (by simp [Item.size])

theorem read_string_first {host : Host} {s : List Byte} {b : MessageBuffer}
    (filled : Filled host (wire host.order (.string s)) b) (small : 4 + s.length < 2 ^ 31) :
    read_string host b = .ok s (b.advance (4 + s.length)) := by
  rw [← List.append_nil (wire _ _)] at filled
  apply read_inside (f := Item.string) (fun _ _ same => by cases same; rfl)
  exact read_first filled small

theorem read_double_first {host : Host} {time : BitVec 64} {b : MessageBuffer}
    (filled : Filled host (layout host.order 8 time) b) :
    read_double host b = .ok time (b.advance 8) := by
  obtain ⟨x, done, same⟩ := retval_ok (read_uint64s_ok (n := 1) host filled.fit
    (filled.inside (by simp)))
  have back : x = time := by
    apply same time []
    rw [filled.order, filled.unread, List.append_nil]
  rw [read_double, read_doubles, done, back]

/-- The first octet of a Boolean's word is the Boolean. -/
theorem word32_boolean {host : Host} {flag : Bool}
    (plain : flag = true → host.isBigEndian = false) :
    ∃ rest, word32 host (if flag then 1 else 0) = wire host.order (.bool flag) ++ rest := by
  refine ⟨[0, 0, 0], ?_⟩
  cases flag with
  | false =>
    have zeros : ∀ o : Order, layout o 4 (0 : UInt32T) = wire o (.bool false) ++ [0, 0, 0] := by
      intro o
      cases o <;> decide
    exact zeros host.order
  | true =>
    rw [word32, Host.order, plain rfl]
    decide

/-- Decoding data to an argument, from any buffer that can be reset. -/
def Decodes (host : Host) (data : ParameterValue) (a : Argument) : Prop :=
  ∀ mb, Fit mb → 5 < mb.bufferMaxSize.toNat →
    ∃ mb', decode host a.decoder data mb = .ok a mb' ∧ Fit mb' ∧ 5 < mb'.bufferMaxSize.toNat

/-- A decoder that fills the buffer, then reads, then converts. -/
theorem fill_then {α β : Type} {host : Host} {data : ParameterValue} {read : Access α} {a : α}
    (f : α → β) (small : data.length < 2 ^ 31)
    (reads : ∀ b, Filled host data b → ∃ n, read b = .ok a (b.advance n)) {mb : MessageBuffer}
    (fit : Fit mb) (room : 5 < mb.bufferMaxSize.toNat) :
    ∃ mb', (f <$> (do fill host data; read)) mb = .ok (f a) mb' ∧ Fit mb' ∧
      5 < mb'.bufferMaxSize.toNat := by
  obtain ⟨b, done, filled⟩ := fill_ok host fit room small
  obtain ⟨n, found⟩ := reads b filled
  refine ⟨b.advance n, ?_, filled.fit.advance n, filled.room⟩
  rw [map_eq_pure_bind, bind_assoc, bind_ok done, bind_ok found, pure_apply]

theorem word32_then {β : Type} {host : Host} {n : UInt32T} (f : UInt32T → β) {mb : MessageBuffer}
    (fit : Fit mb) (room : 5 < mb.bufferMaxSize.toNat) :
    ∃ mb', (f <$> decodeUInt32 host (word32 host n)) mb = .ok (f n) mb' ∧ Fit mb' ∧
      5 < mb'.bufferMaxSize.toNat := by
  apply fill_then f (by simp [word32]) _ fit room
  intro b filled
  rw [← List.append_nil (word32 host n)] at filled
  exact ⟨4, read_uint32_first filled⟩

theorem readHandles_empty {host : Host} {turns : Nat} {b : MessageBuffer}
    (filled : Filled host (word32 host 0) b) :
    readHandles host (turns + 1) 0 b = .ok [] (b.advance 4) := by
  rw [← List.append_nil (word32 host 0)] at filled
  rw [readHandles, bind_ok (read_uint32_first filled)]
  simp

theorem decodes_plain {host : Host} {data : ParameterValue} {a : Argument}
    (encodes : Encodes host data a) (plain : Plain host a) (small : data.length < 2 ^ 31) :
    Decodes host data a := by
  intro mb fit room
  cases a with
  | uint32 n =>
    subst encodes
    exact word32_then Argument.uint32 fit room
  | boolean flag =>
    obtain ⟨rest, first⟩ := word32_boolean plain
    rw [Encodes, first] at encodes
    apply fill_then Argument.boolean small _ fit room
    intro b filled
    rw [encodes] at filled
    exact ⟨1, read_bool_first filled⟩
  | string s =>
    rw [Encodes] at encodes
    rw [encodes, length_wire, Item.size] at small
    apply fill_then Argument.string (by rw [encodes, length_wire]; exact small) _ fit room
    intro b filled
    rw [encodes] at filled
    exact ⟨_, read_string_first filled small⟩
  | resignAction action =>
    obtain ⟨n, rfl, rfl⟩ := encodes
    have whole : ∃ mb', ((Argument.resignAction ∘ resignActionOf) <$>
        decodeUInt32 host (word32 host n)) mb = _ ∧ _ ∧ _ := word32_then _ fit room
    simpa [decode, decodeResignAction, Argument.decoder, Function.comp_def] using whole
  | vectorAttributeHandle handles =>
    rw [Plain] at plain
    subst plain
    have none : data = word32 host 0 := by simpa [Encodes] using encodes
    apply fill_then Argument.vectorAttributeHandle small _ fit room
    intro b filled
    rw [none] at filled
    exact ⟨4, readHandles_empty filled⟩
  | federationTime time =>
    rw [Encodes] at encodes
    apply fill_then Argument.federationTime small _ fit room
    intro b filled
    rw [encodes] at filled
    exact ⟨8, read_double_first filled⟩
  | orderType order =>
    obtain ⟨n, rfl, rfl⟩ := encodes
    have whole : ∃ mb', ((Argument.orderType ∘ orderTypeOf) <$>
        decodeUInt32 host (word32 host n)) mb = _ ∧ _ ∧ _ := word32_then _ fit room
    simpa [decode, decodeOrderType, Argument.decoder, Function.comp_def] using whole

/-! ## Looking handles up -/

/-- A parameter of an interaction class. -/
abbrev Ask := InteractionClassHandle × String

/-- Its handle, as the FOM has it. -/
def ownHandle (root : Modules.RootObject) (q : Ask) : Except Problem ParameterHandle :=
  (memberHandle Parameter.name root.interactions q.1 q.2).mapError .exception

/-- What `getParameterHandle` answers when it is asked one thing after another. -/
def handles (mom : Mom) : List Ask → List (Except Problem ParameterHandle)
  | [] => []
  | q :: qs =>
    match getParameterHandle q.1 q.2 mom with
    | .ok h mom => .ok h :: handles mom qs
    | .error e mom => .error e :: handles mom qs

/-- The cache is a table of answers under the parameter's name alone. -/
theorem getParameterHandle_eq (q : Ask) (mom : Mom) :
    getParameterHandle q.1 q.2 mom =
      match Memo.ask Prod.snd (ownHandle mom.my_root) q mom.my_parameter_cache with
      | .ok h cache => .ok h { mom with my_parameter_cache := cache }
      | .error e cache => .error e { mom with my_parameter_cache := cache } := by
  unfold getParameterHandle Memo.ask ownHandle
  cases lookup Prod.fst q.2 mom.my_parameter_cache with
  | some entry => rfl
  | none => cases memberHandle Parameter.name mom.my_root.interactions q.1 q.2 <;> rfl

theorem handles_eq (mom : Mom) (qs : List Ask) :
    handles mom qs = Memo.answers Prod.snd (ownHandle mom.my_root) mom.my_parameter_cache qs := by
  induction qs generalizing mom with
  | nil => rfl
  | cons q qs ih =>
    rw [handles, Memo.answers, getParameterHandle_eq]
    cases Memo.ask Prod.snd (ownHandle mom.my_root) q mom.my_parameter_cache with
    | ok h cache => simp only [ih]
    | error e cache => simp only [ih]

/-! ## What a request asks for -/

/-- The branch an interaction goes to. -/
def branchAt (root : Modules.RootObject) (interaction : InteractionClassHandle) : Option Branch :=
  branches.find? fun b =>
    interaction = (lookup Prod.fst b.interaction (classCache root)).elim 0 Prod.snd

def reportAsks (root : Modules.RootObject) (reports : List Report) : List Ask :=
  reports.flatMap fun report =>
    match getHandleFromName root.interactions report.1 with
    | .ok interaction => report.2.map fun name => (interaction, name)
    | .error _ => []

def Request.asks (root : Modules.RootObject) (request : Request) : List Ask :=
  match branchAt root request.interaction with
  | none => []
  | some b => b.parameters.map (fun wanted => (request.interaction, wanted.2)) ++
      reportAsks root ((b.handler.reports request.declared).take request.prepared)

/-- The cache holds nothing but answers to `past`. -/
structure Keeps (root : Modules.RootObject) (past : List Ask) (mom : Mom) : Prop where
  fom : mom.my_root = root
  classes : mom.my_interaction_class_cache = classCache root
  recalls : Memo.Recalls Prod.snd (ownHandle root) past mom.my_parameter_cache

section Keeping

variable {root : Modules.RootObject} {past : List Ask} {mom : Mom}

theorem Keeps.mono {past' : List Ask} (keeps : Keeps root past mom) (more : past ⊆ past') :
    Keeps root past' mom where
  fom := keeps.fom
  classes := keeps.classes
  recalls := keeps.recalls.mono more

theorem Keeps.buffer (keeps : Keeps root past mom) (mb : MessageBuffer) :
    Keeps root past { mom with mb := mb } where
  fom := keeps.fom
  classes := keeps.classes
  recalls := keeps.recalls

theorem Keeps.branch (keeps : Keeps root past mom) (interaction : InteractionClassHandle) :
    mom.branch? interaction = branchAt root interaction := by
  unfold Mom.branch? branchAt Mom.interactionClass
  rw [keeps.classes]

/-- A lookup that agrees with those before. -/
theorem Keeps.lookup_right {q : Ask} {h : ParameterHandle} (keeps : Keeps root past mom)
    (agree : ∀ p ∈ past, Memo.Agree Prod.snd (ownHandle root) p q)
    (own : ownHandle root q = .ok h) :
    ∃ mom', getParameterHandle q.1 q.2 mom = .ok h mom' ∧ mom'.mb = mom.mb ∧
      Keeps root (past ++ [q]) mom' := by
  obtain ⟨cache, asked, recalls⟩ := Memo.ask_right keeps.recalls agree own
  refine ⟨{ mom with my_parameter_cache := cache }, ?_, rfl, keeps.fom, keeps.classes, recalls⟩
  rw [getParameterHandle_eq, keeps.fom, asked]

/-- Whatever a lookup answers, it adds no more than its own answer. -/
theorem lookup_keeps {q : Ask} (asked : q ∈ past) :
    Spec (Keeps root past) (getParameterHandle q.1 q.2) (fun _ => Keeps root past)
      (Keeps root past) := by
  intro mom keeps
  have within : past ++ [q] ⊆ past :=
    List.append_subset.mpr ⟨fun _ member => member, by simpa using asked⟩
  have recalls := (Memo.ask_recalls q keeps.recalls).mono within
  rw [getParameterHandle_eq, keeps.fom]
  cases reached : Memo.ask Prod.snd (ownHandle root) q mom.my_parameter_cache with
  | ok h cache =>
    rw [reached] at recalls
    exact ⟨rfl, keeps.classes, recalls⟩
  | error e cache =>
    rw [reached] at recalls
    exact ⟨rfl, keeps.classes, recalls⟩

theorem prepare_keeps {report : Report} (asked : reportAsks root [report] ⊆ past) :
    Spec (Keeps root past) (prepare report) (fun _ => Keeps root past) (Keeps root past) := by
  intro mom keeps
  unfold prepare
  rw [get_bind, keeps.fom]
  cases found : getHandleFromName root.interactions report.1 with
  | error e => simpa using keeps
  | ok interaction =>
    refine spec_mapM (fun name member => lookup_keeps (q := (interaction, name)) ?_) mom keeps
    apply asked
    simp [reportAsks, found, member]

theorem prepareAll_keeps {reports : List Report} (asked : reportAsks root reports ⊆ past) :
    Spec (Keeps root past) (prepareAll reports) (fun _ => Keeps root past) (Keeps root past) := by
  apply spec_forM
  intro report member
  refine spec_bind (prepare_keeps ?_) fun _ => spec_pure fun _ keeps => keeps
  intro q among
  apply asked
  simp only [reportAsks, List.mem_flatMap, List.flatMap_cons, List.flatMap_nil,
    List.append_nil] at among ⊢
  exact ⟨report, member, among⟩

end Keeping

/-! ## Arguments -/

/-- The sender gave a value for the parameter of its class. -/
def Request.Gives (root : Modules.RootObject) (request : Request) (name : String)
    (data : ParameterValue) : Prop :=
  ∃ h, ownHandle root (request.interaction, name) = .ok h ∧
    h ∈ request.parameters.map Prod.fst ∧ parameterValue request.parameters h = data

/-- The sender gave these arguments for the parameters. -/
def Request.Sends (host : Host) (root : Modules.RootObject) (request : Request)
    (parameters : List (Decoder × String)) (arguments : List Argument) : Prop :=
  List.Forall₂ (fun wanted a => a.decoder = wanted.1 ∧
    ∃ data, request.Gives root wanted.2 data ∧ Encodes host data a) parameters arguments

/-- The argument is what its decoder makes of the value given for its parameter. -/
def Request.Owns (host : Host) (root : Modules.RootObject) (request : Request)
    (wanted : Decoder × String) (a : Argument) : Prop :=
  ∃ data mb mb', request.Gives root wanted.2 data ∧ decode host wanted.1 data mb = .ok a mb'

section Arguments

variable {host : Host} {root : Modules.RootObject} {past : List Ask} {mom : Mom} {request : Request}

/-- What was looked up for the parameters of a branch. -/
def asksOf (request : Request) (parameters : List (Decoder × String)) : List Ask :=
  parameters.map fun wanted => (request.interaction, wanted.2)

/-- The lookups still to come agree with those that were made. -/
def Consistent (root : Modules.RootObject) (qs : List Ask) : Prop :=
  qs.Pairwise (Memo.Agree Prod.snd (ownHandle root))

theorem Consistent.agree {q : Ask} {rest : List Ask}
    (consistent : Consistent root (past ++ q :: rest)) :
    ∀ p ∈ past, Memo.Agree Prod.snd (ownHandle root) p q := by
  intro p member
  exact (List.pairwise_append.mp consistent).2.2 p member q List.mem_cons_self

theorem withBuffer_ok {α : Type} {access : Access α} {a : α} {mb : MessageBuffer}
    (done : access mom.mb = .ok a mb) :
    withBuffer access mom = .ok a { mom with mb := mb } := by
  rw [withBuffer, done]

theorem withBuffer_returns {α : Type} {access : Access α} {a : α} {mom' : Mom}
    (done : withBuffer access mom = .ok a mom') :
    ∃ mb, access mom.mb = .ok a mb ∧ mom' = { mom with mb := mb } := by
  unfold withBuffer at done
  cases reached : access mom.mb with
  | ok b mb =>
    rw [reached] at done
    cases done
    exact ⟨mb, rfl, rfl⟩
  | error f mb =>
    rw [reached] at done
    cases done

theorem parameterValue_small {parameters : List (ParameterHandle × ParameterValue)}
    (small : ∀ p ∈ parameters, p.2.length < 2 ^ 31) (h : ParameterHandle) :
    (parameterValue parameters h).length < 2 ^ 31 := by
  unfold parameterValue
  cases found : lookup Prod.fst h parameters.reverse with
  | none => simp
  | some p => exact small p (List.mem_reverse.mp (lookup_mem found))

/-- Arguments that were sent plainly arrive. -/
theorem arguments_sent {parameters : List (Decoder × String)} {arguments : List Argument}
    (keeps : Keeps root past mom) (consistent : Consistent root (past ++ asksOf request parameters))
    (sends : request.Sends host root parameters arguments) (plain : ∀ a ∈ arguments, Plain host a)
    (small : ∀ p ∈ request.parameters, p.2.length < 2 ^ 31) (fit : Fit mom.mb)
    (room : 5 < mom.mb.bufferMaxSize.toNat) :
    ∃ mom', parameters.mapM (argument host request.interaction request.parameters) mom =
      .ok arguments mom' := by
  induction sends generalizing past mom with
  | nil => exact ⟨mom, by rw [List.mapM_nil, pure_apply]⟩
  | @cons wanted a parameters arguments here rest ih =>
    obtain ⟨decoder, data, ⟨h, own, -, value⟩, encodes⟩ := here
    obtain ⟨looked, found, same, keeps'⟩ := keeps.lookup_right (Consistent.agree consistent) own
    subst value
    rw [← same] at fit room
    obtain ⟨mb, decoded, fit', room'⟩ := decodes_plain encodes (plain a List.mem_cons_self)
      (parameterValue_small small h) looked.mb fit room
    rw [decoder] at decoded
    obtain ⟨mom', others⟩ := ih (keeps'.buffer mb) (by simpa [asksOf] using consistent)
      (fun b member => plain b (List.mem_cons_of_mem a member)) fit' room'
    have first : argument host request.interaction request.parameters wanted mom =
        .ok a { looked with mb := mb } := by
      rw [argument, bind_ok found, withBuffer_ok decoded]
    exact ⟨mom', by rw [List.mapM_cons, bind_ok first, bind_ok others, pure_apply]⟩

/-- Arguments that arrive were given, each for its own parameter. -/
theorem arguments_own {parameters : List (Decoder × String)} {arguments : List Argument}
    {mom' : Mom} (keeps : Keeps root past mom)
    (consistent : Consistent root (past ++ asksOf request parameters))
    (given : ∀ wanted ∈ parameters, ∃ data, request.Gives root wanted.2 data)
    (done : parameters.mapM (argument host request.interaction request.parameters) mom =
      .ok arguments mom') :
    List.Forall₂ (request.Owns host root) parameters arguments := by
  induction parameters generalizing past mom arguments with
  | nil =>
    rw [List.mapM_nil, pure_apply] at done
    cases done
    exact .nil
  | cons wanted parameters ih =>
    rw [List.mapM_cons] at done
    obtain ⟨a, t, first, later⟩ := bind_returns done
    obtain ⟨others, t', more, last⟩ := bind_returns later
    rw [pure_apply] at last
    cases last
    obtain ⟨data, h, own, member, value⟩ := given wanted List.mem_cons_self
    obtain ⟨looked, found, same, keeps'⟩ := keeps.lookup_right (Consistent.agree consistent) own
    rw [argument, bind_ok found] at first
    obtain ⟨mb, decoded, rfl⟩ := withBuffer_returns first
    refine .cons ⟨data, looked.mb, mb, ⟨h, own, member, value⟩, by rw [← value, decoded]⟩ ?_
    exact ih (keeps'.buffer mb) (by simpa [asksOf] using consistent)
      (fun w among => given w (List.mem_cons_of_mem wanted among)) more

end Arguments

/-! ## Requests -/

/-- A request that does not meet the defects: every parameter its handler reads is given, and
what encodes a list encodes the empty one. -/
structure Request.Well (host : Host) (root : Modules.RootObject) (request : Request) : Prop where
  given : ∀ b, branchAt root request.interaction = some b →
    ∀ wanted ∈ b.parameters, ∃ data, request.Gives root wanted.2 data
  plain : ∀ b, branchAt root request.interaction = some b →
    ∀ arguments, request.Sends host root b.parameters arguments → ∀ a ∈ arguments, Plain host a
  small : ∀ p ∈ request.parameters, p.2.length < 2 ^ 31

/-- What a request must come to. A process that has ended receives none. -/
structure Request.Right (host : Host) (root : Modules.RootObject) (request : Request)
    (ending : Ending) : Prop where
  /-- The handler is called with the arguments that were sent. -/
  sent : ∀ b, branchAt root request.interaction = some b →
    ∀ arguments, request.Sends host root b.parameters arguments →
      ending = .called b.handler arguments ∨ ending = .gone
  /-- No handler is called with anything but the values given for its parameters. -/
  own : ∀ handler arguments, ending = .called handler arguments →
    ∃ b, branchAt root request.interaction = some b ∧ b.handler = handler ∧
      List.Forall₂ (request.Owns host root) b.parameters arguments
  /-- Without one of the parameters the request is refused. -/
  lacking : ∀ b, branchAt root request.interaction = some b →
    (∃ wanted ∈ b.parameters, ∀ data, ¬ request.Gives root wanted.2 data) →
      (∃ e, ending = .refused e) ∨ ending = .gone

section Requests

variable {host : Host} {root : Modules.RootObject} {past : List Ask} {mom : Mom} {request : Request}

theorem asks_branch {b : Branch} (at' : branchAt root request.interaction = some b) :
    request.asks root = asksOf request b.parameters ++
      reportAsks root ((b.handler.reports request.declared).take request.prepared) := by
  rw [Request.asks, at']
  rfl

theorem Consistent.left {qs qs' : List Ask} (consistent : Consistent root (qs ++ qs')) :
    Consistent root qs :=
  (List.pairwise_append.mp consistent).1

theorem processInteraction_branch {b : Branch} {mom : Mom} (keeps : Keeps root past mom)
    (at' : branchAt root request.interaction = some b) :
    processInteraction host request.interaction request.parameters mom =
      (do
        let arguments ← b.parameters.mapM (argument host request.interaction request.parameters)
        return some (b.handler, arguments)) mom := by
  rw [processInteraction, get_bind, keeps.branch, at']

theorem processInteraction_unknown {mom : Mom} (keeps : Keeps root past mom)
    (at' : branchAt root request.interaction = none) :
    processInteraction host request.interaction request.parameters mom = .ok none mom := by
  simp only [processInteraction, get_bind, keeps.branch, at', pure_apply]

theorem receive_right (keeps : Keeps root past mom)
    (consistent : Consistent root (past ++ request.asks root)) (well : request.Well host root) :
    request.Right host root (receive host request mom).2 := by
  have ready : Keeps root past { mom with mb := request.mb.buffer } := keeps.buffer _
  cases at' : branchAt root request.interaction with
  | none =>
    have unknown : (receive host request mom).2 = .unknown := by
      rw [receive, processInteraction_unknown ready at']
    rw [unknown]
    constructor
    · intro b found
      rw [at'] at found
      cases found
    · intro handler arguments called
      cases called
    · intro b found
      rw [at'] at found
      cases found
  | some b =>
    rw [asks_branch at', ← List.append_assoc] at consistent
    have process : processInteraction host request.interaction request.parameters _ = _ :=
      processInteraction_branch ready at'
    constructor
    · intro b' found arguments sends
      rw [at'] at found
      cases found
      obtain ⟨mom', arrived⟩ := arguments_sent ready consistent.left sends
        (well.plain b at' arguments sends) well.small request.mb.fit request.mb.room
      left
      rw [receive, process, bind_ok arrived, pure_apply]
    · intro handler arguments called
      refine ⟨b, at', ?_⟩
      rw [receive, process] at called
      cases reached : b.parameters.mapM (argument host request.interaction request.parameters)
        { mom with mb := request.mb.buffer } with
      | error problem mom' =>
        rw [bind_error reached] at called
        cases problem with
        | exception e => cases called
        | fault f => cases called
      | ok found mom' =>
        rw [bind_ok reached, pure_apply] at called
        cases called
        exact ⟨rfl, arguments_own ready consistent.left (well.given b at') reached⟩
    · intro b' found lacks
      rw [at'] at found
      cases found
      obtain ⟨wanted, member, absent⟩ := lacks
      obtain ⟨data, gives⟩ := well.given b at' wanted member
      exact absurd gives (absent data)

theorem withBuffer_keeps {α : Type} (access : Access α) :
    Spec (Keeps root past) (withBuffer access) (fun _ => Keeps root past) (Keeps root past) := by
  intro mom keeps
  unfold withBuffer
  cases access mom.mb with
  | ok a mb => exact keeps.buffer mb
  | error f mb => exact keeps.buffer mb

theorem arguments_keep {parameters : List (Decoder × String)}
    (asked : asksOf request parameters ⊆ past) :
    Spec (Keeps root past)
      (parameters.mapM (argument host request.interaction request.parameters))
      (fun _ => Keeps root past) (Keeps root past) := by
  apply spec_mapM
  intro wanted member
  refine spec_bind (lookup_keeps (q := (request.interaction, wanted.2)) (asked ?_)) fun h =>
    withBuffer_keeps _
  exact List.mem_map_of_mem member

theorem Keeps.ended (keeps : Keeps root past mom) :
    Keeps root past { mom with hasEnded := true } where
  fom := keeps.fom
  classes := keeps.classes
  recalls := keeps.recalls

theorem receive_keeps (keeps : Keeps root past mom) :
    Keeps root (past ++ request.asks root) (receive host request mom).1 := by
  have ready : Keeps root (past ++ request.asks root) { mom with mb := request.mb.buffer } :=
    (keeps.buffer _).mono (List.subset_append_left past _)
  cases at' : branchAt root request.interaction with
  | none =>
    rw [receive, processInteraction_unknown ready at']
    exact ready
  | some b =>
    have asked : asksOf request b.parameters ⊆ past ++ request.asks root := by
      intro q member
      rw [asks_branch at']
      simp [member]
    have reported : reportAsks root ((b.handler.reports request.declared).take request.prepared) ⊆
        past ++ request.asks root := by
      intro q member
      rw [asks_branch at']
      simp [member]
    have kept := @arguments_keep host root _ _ _ asked { mom with mb := request.mb.buffer } ready
    rw [receive, processInteraction_branch ready at']
    cases reached : b.parameters.mapM (argument host request.interaction request.parameters)
      { mom with mb := request.mb.buffer } with
    | error problem mom' =>
      rw [reached] at kept
      rw [bind_error reached]
      cases problem with
      | exception e => exact kept
      | fault f => exact kept.ended
    | ok arguments mom' =>
      rw [reached] at kept
      rw [bind_ok reached, pure_apply]
      exact (prepareAll_keeps reported).final kept

end Requests

/-! ## Runs -/

theorem start_keeps (fom : MomFom) (mb : MessageBuffer) : Keeps fom.root [] (start fom mb) where
  fom := rfl
  classes := rfl
  recalls := Memo.recalls_nil

theorem gone_right (host : Host) (root : Modules.RootObject) (request : Request) :
    request.Right host root .gone := by
  constructor
  · intro b _ arguments _
    right
    rfl
  · intro handler arguments called
    cases called
  · intro b _ _
    right
    rfl

theorem requests_right {host : Host} {root : Modules.RootObject} {past : List Ask} {mom : Mom}
    (keeps : Keeps root past mom) {run : List Request}
    (consistent : Consistent root (past ++ run.flatMap (Request.asks root)))
    (well : ∀ request ∈ run, request.Well host root) :
    ∀ turn ∈ (requests host).trace mom run, turn.1.Right host root turn.2 := by
  induction run generalizing past mom with
  | nil => simp
  | cons request run ih =>
    rw [List.flatMap_cons, ← List.append_assoc] at consistent
    have others : ∀ r ∈ run, r.Well host root :=
      fun r member => well r (List.mem_cons_of_mem request member)
    rw [Runs.Machine.trace_cons, List.forall_mem_cons]
    cases ended : mom.hasEnded with
    | true =>
      have answer : requests host mom request = (mom, .gone) := by rw [requests, if_pos ended]
      rw [answer]
      exact ⟨gone_right host root request,
        ih (keeps.mono (List.subset_append_left past _)) consistent others⟩
    | false =>
      have answer : requests host mom request = receive host request mom := by
        rw [requests, if_neg (by simp [ended])]
      rw [answer]
      exact ⟨receive_right keeps consistent.left (well request List.mem_cons_self),
        ih (receive_keeps keeps) consistent others⟩

/-- Asked for parameters in any order, `getParameterHandle` returns their own handles exactly
when no two of them with one name have different handles. Where that holds of everything that
a run of requests looks up, and every request gives all its parameters and no filled list,
each request comes to the call that its sender asked for. -/
theorem arguments_are_senders (host : Host) (fom : MomFom) (mb : MessageBuffer) (qs : List Ask)
    (run : List Request) (consistent : Consistent fom.root (run.flatMap (Request.asks fom.root)))
    (well : ∀ request ∈ run, request.Well host fom.root) :
    (handles (start fom mb) qs = qs.map (ownHandle fom.root) ↔ Consistent fom.root qs) ∧
      ∀ turn ∈ (requests host).trace (start fom mb) run, turn.1.Right host fom.root turn.2 := by
  constructor
  · rw [handles_eq]
    exact Memo.answers_right_iff qs
  · exact requests_right (start_keeps fom mb) consistent well

/-! ## A FOM with a MOM

Each of its classes has every member the MOM asks for, under a handle of its own. The classes
that follow the required ones bear their names without the first part, so that no name has to
be taken apart to see that `getHandleFromName` finds one of them. -/

def wide {σ μ : Type} (props : σ) (make : String → μ) (rows : List Required) : ClassSet σ μ :=
  let names := rows.flatMap fun row => row.2.2
  (rows.map Prod.fst ++ rows.map fun row => (getNextClassName row.1).2).mapIdx fun i name =>
    { handle := i + 1
      name := name
      props := props
      members := names.mapIdx fun j n => (i * names.length + j + 1, make n) }

section Wide

variable {σ μ : Type} {props : σ} {make : String → μ} {nameOf : μ → String} {rows : List Required}

theorem wide_named {name : String}
    (there : name ∈ rows.map Prod.fst ++ rows.map fun row => (getNextClassName row.1).2) :
    ∃ c, named (wide props make rows) name = some c := by
  obtain ⟨i, small, is⟩ := List.getElem_of_mem there
  have inside : i < (wide props make rows).length := by simpa [wide] using small
  apply lookup_of_mem (List.getElem_mem inside)
  simp only [wide, List.getElem_mapIdx]
  exact is

theorem wide_member (reads : ∀ n, nameOf (make n) = n) {c : ClassEntry σ μ}
    (belongs : c ∈ wide props make rows) {row : Required} (required : row ∈ rows) {n : String}
    (needed : n ∈ row.2.2) : ∃ m ∈ c.members, nameOf m.2 = n := by
  obtain ⟨i, small, rfl⟩ := List.getElem_of_mem belongs
  have among : n ∈ rows.flatMap fun row => row.2.2 := List.mem_flatMap.mpr ⟨row, required, needed⟩
  obtain ⟨j, inside, is⟩ := List.getElem_of_mem among
  simp only [wide, List.getElem_mapIdx]
  refine ⟨_, List.getElem_mem (n := j) (by simpa using inside), ?_⟩
  simp [reads, is]

theorem wide_handle {row : Required} (required : row ∈ rows) :
    ∃ c ∈ wide props make rows, getHandleFromName (wide props make rows) row.1 = .ok c.handle := by
  have whole : ∃ c, named (wide props make rows) row.1 = some c :=
    wide_named (List.mem_append_left _ (List.mem_map_of_mem required))
  have cut : ∃ c, named (wide props make rows) (getNextClassName row.1).2 = some c :=
    wide_named (List.mem_append_right _ (List.mem_map_of_mem required))
  unfold getHandleFromName
  by_cases starts : isRootName (getNextClassName row.1).1 = true
  · obtain ⟨c, found⟩ := cut
    exact ⟨c, lookup_mem found, by simp [starts, found]⟩
  · obtain ⟨c, found⟩ := whole
    exact ⟨c, lookup_mem found, by simp [starts, found]⟩

theorem wide_required (reads : ∀ n, nameOf (make n) = n) :
    rows.all (hasRequired nameOf (wide props make rows)) = true := by
  rw [List.all_eq_true]
  intro row required
  obtain ⟨c, belongs, handle⟩ : ∃ c ∈ wide props make rows, _ := wide_handle required
  obtain ⟨d, found⟩ : ∃ d, atHandle (wide props make rows) c.handle = some d :=
    lookup_of_mem belongs rfl
  rw [hasRequired, handle]
  simp only [List.all_eq_true]
  intro n needed
  obtain ⟨m, inside, is⟩ := wide_member reads (lookup_mem found) required needed
  have present : (d.members.find? fun m => nameOf m.2 = n).isSome := by
    rw [List.find?_isSome]
    exact ⟨m, inside, by simpa using is⟩
  obtain ⟨m', first⟩ := Option.isSome_iff_exists.mp present
  have answers : memberHandle nameOf (wide props make rows) c.handle n = .ok m'.1 := by
    simp only [memberHandle, getObjectFromHandle, found]
    dsimp only [bind, Except.bind]
    rw [first]
    rfl
  rw [answers]
  rfl

end Wide

def wideRoot : Modules.RootObject where
  objectClasses := wide ()
    (fun name => { name := name, order := RECEIVE, transport := RELIABLE })
    the_required_object_classes
  interactions := wide {} Parameter.mk the_required_interactions

theorem wideRoot_compliant : isAvailableInRootObjectAndCompliant wideRoot = true := by
  have classes : the_required_object_classes.length ≤ (handled wideRoot.objectClasses).length := by
    decide +kernel
  have interactions :
      the_required_interactions.length ≤ (handled wideRoot.interactions).length := by
    decide +kernel
  unfold isAvailableInRootObjectAndCompliant
  rw [decide_eq_true classes, decide_eq_true interactions, wideRoot,
    wide_required (fun name => rfl), wide_required (fun name => rfl)]
  rfl

def wideFom : MomFom := ⟨wideRoot, wideRoot_compliant⟩

def littleHost : Host := ⟨false, fun _ => 0⟩

def newBuffer : Scratch where
  buffer := allocated littleHost DEFAULT_MESSAGE_BUFFER_SIZE
  fit := by constructor <;> decide +kernel
  room := by decide +kernel

/-- `HLAsetTiming` for federate 1, and `HLAmodifyAttributeState` for its attribute 2 of
object 7. -/
def setTiming : Request :=
  ⟨5, [(409, [1, 0, 0, 0]), (410, [5, 0, 0, 0])], newBuffer, false, 0⟩

def modifyAttributeState : Request :=
  ⟨6, [(511, [1, 0, 0, 0]), (513, [7, 0, 0, 0]), (514, [2, 0, 0, 0]), (515, [1, 0, 0, 0])],
    newBuffer, false, 0⟩

theorem setTiming_branch : branchAt wideRoot setTiming.interaction =
    some ⟨"HLAmanager.HLAfederate.HLAadjust.HLAsetTiming", .federateSetTiming,
      [(.uint32, "HLAfederate"), (.uint32, "HLAreportPeriod")]⟩ := by
  decide +kernel

theorem modifyAttributeState_branch : branchAt wideRoot modifyAttributeState.interaction =
    some ⟨"HLAmanager.HLAfederate.HLAadjust.HLAmodifyAttributeState",
      .federateModifyAttributeState,
      [(.uint32, "HLAfederate"), (.uint32, "HLAobjectInstance"), (.uint32, "HLAattribute"),
       (.boolean, "HLAattributeState")]⟩ := by
  decide +kernel

theorem Request.gives {root : Modules.RootObject} {request : Request} {name : String}
    {h : ParameterHandle} {data : ParameterValue}
    (own : ownHandle root (request.interaction, name) = .ok h)
    (there : h ∈ request.parameters.map Prod.fst)
    (value : parameterValue request.parameters h = data) : request.Gives root name data :=
  ⟨h, own, there, value⟩

theorem setTiming_consistent :
    Consistent wideRoot ([setTiming].flatMap (Request.asks wideRoot)) := by
  have asks : [setTiming].flatMap (Request.asks wideRoot) =
      [(5, "HLAfederate"), (5, "HLAreportPeriod")] := by
    rw [List.flatMap_singleton, asks_branch setTiming_branch]
    rfl
  rw [asks, Consistent, List.pairwise_pair]
  intro same
  exact absurd same (by decide)

theorem setTiming_well : setTiming.Well littleHost wideRoot := by
  constructor
  · intro b found wanted member
    rw [setTiming_branch] at found
    cases found
    rcases List.mem_cons.mp member with rfl | later
    · exact ⟨[1, 0, 0, 0], Request.gives (h := 409) (by decide +kernel) (by decide) (by decide)⟩
    · rw [List.mem_singleton.mp later]
      exact ⟨[5, 0, 0, 0], Request.gives (h := 410) (by decide +kernel) (by decide) (by decide)⟩
  · intro b found arguments sends a member
    rw [setTiming_branch] at found
    cases found
    obtain ⟨first, rest, ⟨one, -⟩, others, rfl⟩ := List.forall₂_cons_left_iff.mp sends
    obtain ⟨second, none, ⟨two, -⟩, nothing, rfl⟩ := List.forall₂_cons_left_iff.mp others
    rw [List.forall₂_nil_left_iff.mp nothing] at member
    have word : a.decoder = .uint32 := by
      rcases List.mem_cons.mp member with rfl | later
      · exact one
      · rw [List.mem_singleton.mp later]
        exact two
    cases a <;> simp_all [Argument.decoder, Plain]
  · decide

/-- A run in which the hypotheses hold. -/
theorem arguments_are_senders_timing :
    Consistent wideRoot ([setTiming].flatMap (Request.asks wideRoot)) ∧
      (∀ request ∈ [setTiming], request.Well littleHost wideRoot) ∧
      (handles (start wideFom newBuffer.buffer) [(5, "HLAfederate")] =
          [(5, "HLAfederate")].map (ownHandle wideRoot) ↔
        Consistent wideRoot [(5, "HLAfederate")]) ∧
      ∀ turn ∈ (requests littleHost).trace (start wideFom newBuffer.buffer) [setTiming],
        turn.1.Right littleHost wideRoot turn.2 := by
  have well : ∀ request ∈ [setTiming], request.Well littleHost wideRoot := by
    intro request member
    rw [List.mem_singleton.mp member]
    exact setTiming_well
  exact ⟨setTiming_consistent, well,
    arguments_are_senders littleHost wideFom newBuffer.buffer [(5, "HLAfederate")] [setTiming]
      setTiming_consistent well⟩

/-- After `HLAsetTiming` the federate of `HLAmodifyAttributeState` is looked for under the
handle it has in `HLAsetTiming`; no octets are there, and the read that fails ends the RTIG. -/
theorem second_request_stops :
    ¬ ∀ (host : Host) (fom : MomFom) (mb : MessageBuffer) (run : List Request),
      ∀ turn ∈ (requests host).trace (start fom mb) run, turn.1.Right host fom.root turn.2 := by
  intro right
  have answers := right littleHost wideFom newBuffer.buffer [setTiming, modifyAttributeState]
  simp only [Runs.Machine.trace_cons, List.forall_mem_cons] at answers
  obtain ⟨-, second, -⟩ := answers
  have sends : modifyAttributeState.Sends littleHost wideRoot
      [(.uint32, "HLAfederate"), (.uint32, "HLAobjectInstance"), (.uint32, "HLAattribute"),
       (.boolean, "HLAattributeState")] [.uint32 1, .uint32 7, .uint32 2, .boolean true] := by
    have encoded : ∀ (data : ParameterValue) (n : UInt32T), data = word32 littleHost n →
        Encodes littleHost data (.uint32 n) := fun _ _ same => same
    refine .cons ⟨rfl, [1, 0, 0, 0], ?_, encoded _ 1 (by decide)⟩
      (.cons ⟨rfl, [7, 0, 0, 0], ?_, encoded _ 7 (by decide)⟩
      (.cons ⟨rfl, [2, 0, 0, 0], ?_, encoded _ 2 (by decide)⟩
      (.cons ⟨rfl, [1, 0, 0, 0], ?_, encoded _ 1 (by decide)⟩ .nil)))
    · exact Request.gives (h := 511) (by decide +kernel) (by decide) (by decide)
    · exact Request.gives (h := 513) (by decide +kernel) (by decide) (by decide)
    · exact Request.gives (h := 514) (by decide +kernel) (by decide) (by decide)
    · exact Request.gives (h := 515) (by decide +kernel) (by decide) (by decide)
  have called := second.sent _ modifyAttributeState_branch _ sends
  revert called
  decide +kernel

end Certi.MOM
