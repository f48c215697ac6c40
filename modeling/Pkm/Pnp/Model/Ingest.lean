import Pkm.Lib.Outcome
import Pkm.Pnp.Model.Rule
/-!
# Ingestion

The keys of the registry become a forest of rules. The values of a key are parsed and
checked against the layer, the names they mention are collected, and one error refuses
the whole forest. A condition over a key that never exists at the layer is kept and
marked; it is the absent-fact law that makes it false.

Addresses and security identifiers are read from text by functions that this
development does not look into (`PatternText`).
-/

namespace Pkm.Pnp

open Rose

/-- A value of the registry. -/
inductive RegValue where
  | int (v : ℤ)
  | str (s : Text)
  | list (items : List RegValue)

namespace RegValue

def asInt : RegValue → Option ℤ
  | int v => some v
  | _ => none

def asStr : RegValue → Option Text
  | str s => some s
  | _ => none

end RegValue

/-- A rule key: its name and its values. Its subkeys are its children. -/
structure KeyInput where
  name : Text
  values : List (Text × RegValue)

abbrev RuleInput := Rose KeyInput

inductive BuildError where
  | unknownFact (rule key : Text)
  | badOperator (rule key : Text)
  | badPattern (rule key : Text)
  | badCounterView (rule key : Text)
  | badActionsValue (rule : Text)
  | badAction (rule : Text) (detail : ActionParseError)
  | badPriority (rule : Text)
  | badEnabled (rule : Text)
  | badRuleName (rule : Text)
  | tagHashCollision (a b : Text)
  | streamHashCollision (a b : Text)
  | presentNeverAtLayer (rule key : Text)
  | keyNotAtLayer (rule key : Text)
  | actionNotAtLayer (rule : Text)
  deriving DecidableEq

abbrev BuildResult := Except BuildError

/-- A fact that never exists at the layer of its rule. -/
structure LintWarning where
  rule : Text
  key : Text
  deriving DecidableEq

/-- How addresses and identifiers are written. -/
class PatternText where
  parseIpAddr : Text → Option IpAddr
  parseSid : Text → Option Sid
  serviceSid : Text → Sid
  wellKnownSid : Text → Option Sid

/-! ## Names -/

def noteName (list : List NamedHash) (name : Text) : List NamedHash :=
  if list.any fun n => n.name == name then list else list ++ [⟨name, nameHash name⟩]

namespace Collector

def empty : Collector := ⟨[], [], [], [], [], [], []⟩

variable (collector : Collector) (name : Text)

/-- The place of a profile in the table, which keeps its first spelling. -/
def noteProfile (path : Text) : ℕ × Collector :=
  match collector.profiles.findIdx? fun p => eqIgnoreAsciiCase p path with
  | some i => (i, collector)
  | none =>
    (collector.profiles.length, { collector with profiles := collector.profiles ++ [path] })

def noteTag : Collector := { collector with tagNames := noteName collector.tagNames name }

def noteTagWrite : Collector := { collector with tagWrites := noteName collector.tagWrites name }

def noteTagRead (rule : Text) : Collector :=
  if collector.tagReadSites.any fun site => site.2 == name then collector
  else { collector with tagReadSites := collector.tagReadSites ++ [(rule, name)] }

def noteStream : Collector := { collector with streams := noteName collector.streams name }

def noteView (view : CounterView) (rule key : Text) : ℕ × Collector :=
  match collector.views.findIdx? fun v => v == view with
  | some i => (i, collector)
  | none =>
    (collector.views.length,
      { collector with
        views := collector.views ++ [view]
        viewSites := collector.viewSites ++ [(rule, key)] })

/-- The names an action mentions; those of a fallback count too. -/
def noteAction (collector : Collector) : Action → Collector
  | .tag name _ => (collector.noteTag name).noteTagWrite name
  | .count name _ => collector.noteStream name
  | .prompt _ (some inner) => collector.noteAction inner
  | _ => collector

def noteActions (actions : List Action) : Collector := actions.foldl noteAction collector

end Collector

def collides (a b : NamedHash) : Bool := a.hash == b.hash && a.name != b.name

/-- The first two distinct names with one hash. -/
def firstCollision : List NamedHash → Option (Text × Text)
  | [] => none
  | a :: rest =>
    match rest.find? (collides a) with
    | some b => some (a.name, b.name)
    | none => firstCollision rest

def checkCollisions (names : List NamedHash) (error : Text → Text → BuildError) :
    BuildResult Unit :=
  match firstCollision names with
  | some (a, b) => .error (error a b)
  | none => .ok ()

/-! ## Patterns -/

/-- The elements of a value, each read by `f`: a list must have elements and no list among
them. -/
def patterns {α : Type} (f : RegValue → Option α) : RegValue → Option (List α)
  | .list [] => none
  | .list items => items.mapM fun item =>
    match item with
    | .list _ => none
    | other => f other
  | other => (f other).map fun a => [a]

def scalarInt : RegValue → Option ℤ
  | .int v => some v
  | .str s => parseInt s
  | .list _ => none

/-- The names that stand for numbers of a fact. -/
def namedInt (name : Text) (fact : FactId) : Option ℤ :=
  let table : List (String × ℤ) := match fact with
    | .etherType => [("ipv4", 0x0800), ("ipv6", 0x86dd), ("arp", 0x0806)]
    | .protocol => [("tcp", 6), ("udp", 17), ("icmp", 1), ("icmpv6", 58), ("sctp", 132)]
    | .localIntegrity | .remoteIntegrity =>
      [("untrusted", 0), ("low", 4096), ("medium", 8192), ("high", 12288), ("system", 16384)]
    | _ => []
  (table.find? fun entry => lowerEq name entry.1.toList).map Prod.snd

def scalarIntNamed (value : RegValue) (fact : Option FactId) : Option ℤ :=
  match value with
  | .str s => if (parseInt s).isNone then fact.bind (namedInt s) else scalarInt value
  | other => scalarInt other

def intRange (a b : Text) : Option IntPattern :=
  match parseInt a, parseInt b with
  | some a, some b => if a ≤ b then some (.range a b) else none
  | _, _ => none

def intPattern (fact : Option FactId) : RegValue → Option IntPattern
  | .int v => some (.exact v)
  | .str s =>
    match parseInt s with
    | some v => some (.exact v)
    | none =>
      match splitOnce '-' s with
      | some (a, b) => intRange a b
      | none => (fact.bind (namedInt s)).map .exact
  | .list _ => none

/-- The text between braces, if it stands between braces. -/
def unbrace (s : Text) : Text :=
  match s with
  | '{' :: rest => if rest.getLast? = some '}' then rest.dropLast else s
  | _ => s

/-- The identifiers of processes are compared in lower case and without braces. -/
def strPattern (fact : Option FactId) (el : RegValue) : Option Text :=
  el.asStr.map fun s =>
    if fact = some .localProcess ∨ fact = some .remoteProcess then (unbrace s).map Char.toLower
    else s

variable [PatternText]

def sidPattern (s : Text) (fact : Option FactId) : Option Sid :=
  let s := trim s
  if s.take 2 == "S-".toList || s.take 2 == "s-".toList then PatternText.parseSid s
  else if s.isEmpty then none
  else
    match fact with
    | none => none
    | some .localService | some .remoteService => some (PatternText.serviceSid s)
    | some _ => PatternText.wellKnownSid s

def IpAddr.isV4 : IpAddr → Bool
  | .v4 _ => true
  | .v6 _ => false

def cidrPattern (addr bits : Text) : Option AddrPattern := do
  let addr ← PatternText.parseIpAddr addr
  let bits ← parseUnsigned 10 256 bits
  if bits > (if addr.isV4 then 32 else 128) then none else some (.cidr addr bits)

def addrRange (a b : Text) : Option AddrPattern := do
  let a ← PatternText.parseIpAddr a
  let b ← PatternText.parseIpAddr b
  if a.isV4 == b.isV4 then some (.range a b) else none

def addrPattern (s : Text) : Option AddrPattern :=
  match splitOnce '/' s with
  | some (addr, bits) => cidrPattern addr bits
  | none =>
    match PatternText.parseIpAddr s with
    | some addr => some (.exact addr)
    | none =>
      match splitOnce '-' s with
      | some (a, b) => addrRange a b
      | none => none

def parseOctet (part : Text) : Option ℕ :=
  if utf8Len part ≠ 2 then none else parseUnsigned 16 256 part

def parseMac (s : Text) : Option Mac := do
  let parts := split ':' s
  if parts.length ≠ 6 then none
  else
    let octets ← parts.mapM parseOctet
    some (BitVec.ofNat 48 (octets.foldl (fun acc b => 256 * acc + b) 0))

def tcpFlagFromName (name : Text) : Option (BitVec 8) :=
  let table : List (String × BitVec 8) :=
    [("FIN", 0x01), ("SYN", 0x02), ("RST", 0x04), ("PSH", 0x08), ("ACK", 0x10), ("URG", 0x20),
     ("ECE", 0x40), ("CWR", 0x80)]
  (table.find? fun entry => upperEq name entry.1.toList).map Prod.snd

def flagMask (value : RegValue) : Option (BitVec 8) := do
  let flags ← patterns (fun el => el.asStr.bind tcpFlagFromName) value
  let mask := flags.foldl (· ||| ·) 0
  if mask = 0 then none else some mask

/-! ## Conditions -/

/-- What a condition is over, and the names that it adds. -/
def parseCondKey (subject key path : Text) (collector : Collector) :
    BuildResult (CondKey × Collector) :=
  match stripPrefix "Tag.".toList subject with
  | some tag =>
    if tag.isEmpty then .error (.unknownFact path key)
    else .ok (.tag tag (nameHash tag), (collector.noteTag tag).noteTagRead tag path)
  | none =>
    match stripPrefix "Counter.".toList subject with
    | some spec =>
      match CounterView.parse spec with
      | none => .error (.badCounterView path key)
      | some view =>
        let (index, collector) := collector.noteView view path key
        .ok (.counter index, collector)
    | none =>
      match FactId.fromKey subject with
      | some fact => .ok (.fact fact, collector)
      | none => .error (.unknownFact path key)

/-- The pattern of an operator, or the error for one that does not parse. -/
def orBadPattern (path key : Text) {α : Type} : Option α → BuildResult α
  | some a => .ok a
  | none => .error (.badPattern path key)

def parsePresent (path key : Text) (value : RegValue) : BuildResult CondOp :=
  match scalarInt value with
  | some 0 => .ok (.present false)
  | some 1 => .ok (.present true)
  | _ => .error (.badPattern path key)

def parseEqual (path key : Text) (family : FactFamily) (fact : Option FactId) (value : RegValue) :
    BuildResult CondOp :=
  match family with
  | .int => CondOp.equalInt <$> orBadPattern path key (patterns (intPattern fact) value)
  | .str => CondOp.equalStr <$> orBadPattern path key (patterns (strPattern fact) value)
  | .sid =>
    CondOp.equalSid <$> orBadPattern path key
      (patterns (fun el => el.asStr.bind fun s => sidPattern s fact) value)
  | .addr =>
    CondOp.equalAddr <$> orBadPattern path key
      (patterns (fun el => el.asStr.bind addrPattern) value)
  | .mac =>
    CondOp.equalMac <$> orBadPattern path key (patterns (fun el => el.asStr.bind parseMac) value)
  | .flags => .error (.badOperator path key)

def parseOp (opName path key : Text) (family : FactFamily) (fact : Option FactId)
    (value : RegValue) : BuildResult CondOp :=
  if opName = "Present".toList then parsePresent path key value
  else if opName = "Equal".toList then parseEqual path key family fact value
  else if opName = "GreaterThan".toList ∧ family = .int then
    CondOp.gt <$> orBadPattern path key (scalarIntNamed value fact)
  else if opName = "LessThan".toList ∧ family = .int then
    CondOp.lt <$> orBadPattern path key (scalarIntNamed value fact)
  else if opName = "Has".toList ∧ family = .flags then
    CondOp.has <$> orBadPattern path key (flagMask value)
  else if opName = "Hasnt".toList ∧ family = .flags then
    CondOp.hasnt <$> orBadPattern path key (flagMask value)
  else .error (.badOperator path key)

def CondKey.family : CondKey → FactFamily
  | .fact id => id.family
  | .tag _ _ | .counter _ => .int

def CondKey.fact? : CondKey → Option FactId
  | .fact id => some id
  | _ => none

def parseCondition (key : Text) (value : RegValue) (path : Text) (collector : Collector) :
    BuildResult (Condition × Collector) :=
  match rsplitOnce '.' key with
  | none => .error (.unknownFact path key)
  | some (subject, opName) => do
    let (condKey, collector) ← parseCondKey subject key path collector
    let op ← parseOp opName path key condKey.family condKey.fact? value
    .ok (⟨condKey, op, false⟩, collector)

/-- Whether a key never exists at a layer. -/
def neverAt : Layer → CondKey → Bool
  | .interface, .fact f => !f.isAtInterfaceLayer
  | .interface, _ => false
  | .packet, .fact f => f.isFlowOnly || f.isInterfaceOnly
  | .packet, _ => false
  | .rawPacket, .fact f => f == .flowState || (f.isFlowOnly || f.isInterfaceOnly)
  | .rawPacket, .tag _ _ => true
  | .rawPacket, _ => false
  | .flow, .fact f => !f.isFlowInvariant || f.isInterfaceOnly
  | .flow, _ => false

def CondOp.isPresent : CondOp → Bool
  | .present _ => true
  | _ => false

variable (layer : Layer) (path : Text)

/-- Whether the key of a condition never exists at its layer, with the warning for it. The
interface layer has no tags and no counters, and `Present` may not ask for what never exists. -/
def lintCondition (condition : Condition) (path key : Text) (lints : List LintWarning) :
    BuildResult (Bool × List LintWarning) :=
  if layer.isInterface && condition.key.fact?.isNone then .error (.keyNotAtLayer path key)
  else if neverAt layer condition.key then
    if condition.op.isPresent then .error (.presentNeverAtLayer path key)
    else .ok (true, lints ++ [⟨path, key⟩])
  else .ok (false, lints)

/-! ## Actions -/

/-- Whether an action is a verdict of the interface layer. -/
def Action.isInterfaceVerdict : Action → Bool
  | .join _ => true
  | .verdict v => v.isInterface
  | _ => false

/-- An action in the form it is executed in, if the layer speaks it. -/
def placeAction (action : Action) (path : Text) (collector : Collector) :
    BuildResult (Action × Collector) :=
  if layer.isInterface then
    match action with
    | .null => .ok (action, collector)
    | .report _ => .ok (action, collector)
    | .verdict v =>
      if v.isInterface then .ok (action, collector) else .error (.actionNotAtLayer path)
    | .join profile =>
      let (index, collector) := collector.noteProfile profile
      .ok (.verdict (.join index), collector)
    | _ => .error (.actionNotAtLayer path)
  else
    match action with
    | .join _ => .error (.actionNotAtLayer path)
    | .verdict v =>
      if v.isInterface then .error (.actionNotAtLayer path) else .ok (action, collector)
    | .prompt _ (some inner) =>
      if inner.isInterfaceVerdict then .error (.actionNotAtLayer path) else .ok (action, collector)
    | _ => .ok (action, collector)

def parseActionForRule (expr path : Text) : BuildResult Action :=
  (parseAction expr).mapError (.badAction path)

/-! ## Rules -/

/-- What has been read of the values of a rule. -/
structure Draft where
  conditions : List Condition
  timeConditions : List Condition
  priority : ℤ
  enabled : Bool
  actions : List Action

/-- What building a forest collects besides the rules. -/
structure Building where
  lints : List LintWarning
  collector : Collector

variable (s : Draft × Building) (value : RegValue)

def addAction (item : RegValue) : BuildResult (Draft × Building) :=
  match item.asStr with
  | none => .error (.badActionsValue path)
  | some expr => do
    let action ← parseActionForRule expr path
    let (action, collector) ← placeAction layer action path s.2.collector
    .ok ({ s.1 with actions := s.1.actions ++ [action] }, { s.2 with collector })

def addPriority : BuildResult (Draft × Building) :=
  match value.asInt with
  | some priority => .ok ({ s.1 with priority }, s.2)
  | none => .error (.badPriority path)

def addEnabled : BuildResult (Draft × Building) :=
  match value.asInt with
  | some 0 => .ok ({ s.1 with enabled := false }, s.2)
  | some 1 => .ok ({ s.1 with enabled := true }, s.2)
  | _ => .error (.badEnabled path)

def addActions : BuildResult (Draft × Building) :=
  match value with
  | .list items => items.foldlM (addAction layer path) s
  | _ => .error (.badActionsValue path)

/-- A condition goes to those over the clock, which are evaluated last, or to the others. -/
def addCondition (key : Text) (s : Draft × Building) (value : RegValue) :
    BuildResult (Draft × Building) := do
  let (condition, collector) ← parseCondition key value path s.2.collector
  let (never, lints) ← lintCondition layer condition path key s.2.lints
  let condition := { condition with never }
  .ok (if condition.isLiveTime then
      { s.1 with timeConditions := s.1.timeConditions ++ [condition] }
    else { s.1 with conditions := s.1.conditions ++ [condition] }, ⟨lints, collector⟩)

/-- One value of a rule. -/
def addValue (entry : Text × RegValue) : BuildResult (Draft × Building) :=
  if entry.1 = "Priority".toList then addPriority path s entry.2
  else if entry.1 = "Enabled".toList then addEnabled path s entry.2
  else if entry.1 = "Actions".toList then addActions layer path s entry.2
  else addCondition layer path entry.1 s entry.2

/-- A rule from its own values, without its exceptions. -/
def buildNode (input : KeyInput) (parentPath : Text) (parentPriority : ℤ) (building : Building) :
    BuildResult (RuleBody × Building) :=
  let path := joinPath parentPath input.name
  if input.name.isEmpty || input.name.contains '/' || input.name.contains '\\' then
    .error (.badRuleName path)
  else do
    let (draft, building) ← input.values.foldlM (addValue layer path)
      (⟨[], [], parentPriority, true, []⟩, building)
    .ok ({
      name := input.name
      conditions := draft.conditions ++ draft.timeConditions
      priority := draft.priority
      enabled := draft.enabled
      actions := draft.actions },
      { building with collector := building.collector.noteActions draft.actions })

/-! ## Forests

The source keeps the open rules on a stack of its own. A rule is built when it is put on the
stack and handed to its parent when it leaves it, which is the recursion here. -/

mutual

def buildRule (layer : Layer) (parentPath : Text) (parentPriority : ℤ) :
    RuleInput → Building → BuildResult (Rule × Building)
  | .node input children, building => do
    let (body, building) ← buildNode layer input parentPath parentPriority building
    let (rules, building) ←
      buildRules layer (joinPath parentPath input.name) body.priority children building
    .ok (.node body rules, building)

def buildRules (layer : Layer) (parentPath : Text) (parentPriority : ℤ) :
    List RuleInput → Building → BuildResult (List Rule × Building)
  | [], building => .ok ([], building)
  | input :: inputs, building => do
    let (rule, building) ← buildRule layer parentPath parentPriority input building
    let (rules, building) ← buildRules layer parentPath parentPriority inputs building
    .ok (rule :: rules, building)

end

structure BuildOutput where
  forest : Forest
  lints : List LintWarning

def buildForest (layer : Layer) (roots : List RuleInput) : BuildResult BuildOutput := do
  let (rules, building) ← buildRules layer [] 0 roots ⟨[], .empty⟩
  let collector := building.collector
  checkCollisions collector.tagNames .tagHashCollision
  checkCollisions collector.streams .streamHashCollision
  .ok { forest := { collector with layer, roots := rules }, lints := building.lints }

end Pkm.Pnp
