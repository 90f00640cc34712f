import VmodRedis.Discovery
import VmodRedis.SentinelReport

namespace VmodRedis.SentinelInventory

open CStrings Replies Database Discovery SentinelUpdate

structure State where
  lastChange : ℤ
  nextDiscovery : ℤ
  servers : List Discovered

def Discovered.isAt (host : Bytes) (port : ℕ) (d : Discovered) : Bool := d.port = port && strcmp d.host host

/-- `down` is missing where the source has a negative value: the current flag is kept. -/
def Discovered.changed (role : Role) (down : Option Bool) (d : Discovered) : Discovered :=
  { d with role := role, down := down.getD d.down }

/-- The search of `store_sentinel_reply` and what it does at its end; the second component says
whether something has changed. -/
def storeServer (host : Bytes) (port : ℕ) (role : Role) (down : Option Bool) :
    List Discovered → List Discovered × Bool
  | [] => ([⟨cstr host, port, role, down.getD false⟩], true)
  | d :: rest =>
    if Discovered.isAt host port d then
      if d.role ≠ role ∨ down.any (· ≠ d.down) then (Discovered.changed role down d :: rest, true)
      else (d :: rest, false)
    else
      let r := storeServer host port role down rest
      (d :: r.1, r.2)

def storeSentinelReply (now : ℤ) (host : Bytes) (port : ℕ) (role : Role) (down : Option Bool) (st : State) : State :=
  let r := storeServer host port role down st.servers
  { st with servers := r.1, lastChange := if r.2 then now else st.lastChange }

def arrayOrPush : Reply → Option (List Reply)
  | .array element | .push element => some element
  | _ => none

def instanceRole (kind : Bytes) : Option Role :=
  if strcmp kind (bytes "master") then some .master
  else if strcmp kind (bytes "slave") then some .slave
  else none

def isDownEvent (event : Bytes) : Bool :=
  strcmp event (bytes "+sdown") || strcmp event (bytes "-sdown") || strcmp event (bytes "+odown") ||
    strcmp event (bytes "-odown")

def parseDownEvent (now : ℤ) (event payload : Bytes) (st : State) : State :=
  match strtok payload with
  | kind :: _ :: ip :: port :: _ =>
    match instanceRole kind with
    | some role => storeSentinelReply now ip (atoi port) role (some (event.head? = some 43)) st
    | none => st
  | _ => st

def parseSwitchMaster (clock : ℕ → ℤ) (payload : Bytes) (st : State) : State :=
  match strtok payload with
  | _ :: oldIp :: oldPort :: newIp :: newPort :: _ =>
    storeSentinelReply (clock 1) newIp (atoi newPort) .master (some false)
      (storeSentinelReply (clock 0) oldIp (atoi oldPort) .slave none st)
  | _ => st

def parseSentinelNotification (clock : ℕ → ℤ) (reply : Reply) (st : State) : State :=
  match arrayOrPush reply with
  | some [.string kind, _, .string event, .string payload] =>
    if strcmp kind (bytes "pmessage") then
      if isDownEvent event then parseDownEvent (clock 0) event payload st
      else if strcmp event (bytes "+switch-master") then parseSwitchMaster clock payload st
      else st
    else st
  | _ => st

structure InstanceFields where
  masterName : Option Bytes
  host : Option Bytes
  port : ℕ
  role : Role
  down : Bool

def flagsRole (role : Role) (value : Bytes) : Role :=
  if strstr value (bytes "slave") then .slave
  else if strstr value (bytes "master") then .master
  else role

def flagsDown (value : Bytes) : Bool := strstr value (bytes "s_down") || strstr value (bytes "o_down")

def instanceField (fields : InstanceFields) : Reply × Reply → InstanceFields
  | (.string name, .string value) =>
    if strcmp name (bytes "name") then { fields with masterName := some value }
    else if strcmp name (bytes "ip") then { fields with host := some value }
    else if strcmp name (bytes "port") then { fields with port := atoi value }
    else if strcmp name (bytes "flags") then
      { fields with role := flagsRole fields.role value, down := fields.down || flagsDown value }
    else fields
  | _ => fields

def instanceFields (element : List Reply) : InstanceFields :=
  (pairs element).foldl instanceField ⟨none, none, 0, .tbd, false⟩

def storeInstance (now : ℤ) (fields : InstanceFields) (st : State) : State :=
  match fields.host with
  | some host =>
    if 0 < fields.port ∧ fields.role ≠ .tbd then
      storeSentinelReply now host fields.port fields.role (some fields.down) st
    else st
  | none => st

def discoveredInstances (reply : Reply) : List InstanceFields :=
  match reply with
  | .array element => element.filterMap fun e => e.arrayOrMap.map instanceFields
  | _ => []

def storeInstances (clock : ℕ → ℤ) : List InstanceFields → State → State
  | [], st => st
  | fields :: rest, st => storeInstances (fun i => clock (i + 1)) rest (storeInstance (clock 0) fields st)

/-- The names of masters, asked for by the first of the two callers only, and the new inventory. -/
def parseSentinelDiscovery (clock : ℕ → ℤ) (reply : Reply) (st : State) : List Bytes × State :=
  let instances := discoveredInstances reply
  (instances.filterMap InstanceFields.masterName, storeInstances clock instances st)

end VmodRedis.SentinelInventory
