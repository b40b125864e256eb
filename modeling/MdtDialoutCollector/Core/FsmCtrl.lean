import MdtDialoutCollector.Core.Delivery
import MdtDialoutCollector.Core.Stream
import MdtDialoutCollector.Utils.Loading

/-! What the collector reads in its parameter maps once they are loaded: `main`, the threads
it starts, and on each of these `FsmCtrl` with the plumbing of its vendor. Every key read
there has been loaded under the condition it is read under. -/

namespace MdtDialoutCollector.Core

open Data External Labels Text Utils

/-! ### Delivery and credentials -/

structure KafkaDelivery where
  topic : Bytes
  bootstrapServers : Bytes
  enableIdempotence : Bytes
  clientId : Bytes
  securityProtocol : Bytes
  sslKeyLocation : Bytes
  sslKeyPassword : Bytes
  sslCertificateLocation : Bytes
  sslCaLocation : Bytes
  enableSslCertificateVerification : Bytes
  logLevel : Bytes

def kafkaDelivery (kafka : Params) : Except StdException KafkaDelivery := do
  let topic ← kafka.atKey "topic"
  let bootstrapServers ← kafka.atKey "bootstrap_servers"
  let enableIdempotence ← kafka.atKey "enable_idempotence"
  let clientId ← kafka.atKey "client_id"
  let securityProtocol ← kafka.atKey "security_protocol"
  let sslKeyLocation ← kafka.atKey "ssl_key_location"
  let sslKeyPassword ← kafka.atKey "ssl_key_password"
  let sslCertificateLocation ← kafka.atKey "ssl_certificate_location"
  let sslCaLocation ← kafka.atKey "ssl_ca_location"
  let enableSslCertificateVerification ← kafka.atKey "enable_ssl_certificate_verification"
  let logLevel ← kafka.atKey "log_level"
  return ⟨topic, bootstrapServers, enableIdempotence, clientId, securityProtocol, sslKeyLocation,
    sslKeyPassword, sslCertificateLocation, sslCaLocation, enableSslCertificateVerification,
    logLevel⟩

/-- The transport address that every `ZmqDelivery` is built with. -/
def zmqDelivery (zmq : Params) : Except StdException Bytes := zmq.atKey "zmq_uri"

/-- The files of the key and the certificate, or `none` for insecure credentials. -/
def makeServerCredentials (main : Params) : Except StdException (Option (Bytes × Bytes)) := do
  if (← main.atKey "enable_tls") ≠ lit "true" then return none
  let tlsKey ← main.atKey "tls_key_path"
  let tlsCert ← main.atKey "tls_cert_path"
  return some (tlsKey, tlsCert)

/-! ### The plumbing of a vendor -/

structure VendorPlumbing where
  kafkaDelivery : KafkaDelivery
  zmqUri : Bytes
  writerId : Bytes
  delivery : DeliveryMethod
  labelEncode : Bool

def deliveryOf (ddm : Bytes) : Check DeliveryMethod :=
  if ddm = lit "kafka" then .ok .kafka
  else if ddm = lit "zmq" then .ok .zmq
  else .error .aborted

/-- The second setting is read only where the first is off. -/
def labelEncode (dm : Params) : Except StdException Bool := do
  if (← dm.atKey "enable_label_encode_as_map") = lit "true" then return true
  return (← dm.atKey "enable_label_encode_as_map_ptm") = lit "true"

def vendorPlumbing (g : Stage → Params) : Check VendorPlumbing := do
  let kafkaDelivery ← raise (kafkaDelivery (g .kafka))
  let zmqUri ← raise (zmqDelivery (g .zmq))
  let writerId ← raise ((g .main).atKey "writer_id")
  let ddm ← raise ((g .main).atKey "data_delivery_method")
  let delivery ← deliveryOf ddm
  let labelEncode ← raise (labelEncode (g .dataManipulation))
  return ⟨kafkaDelivery, zmqUri, writerId, delivery, labelEncode⟩

/-! ### `FsmCtrl` -/

def replies (main : Params) (key : String) : Except StdException ℤ := do
  stoi (← main.atKey key)

/-- The plumbing and the bound on the messages of a stream. -/
def fsmCtrl (g : Stage → Params) (repliesKey : String) : Check (VendorPlumbing × ℤ) := do
  let pl ← vendorPlumbing g
  let maxReplies ← raise (replies (g .main) repliesKey)
  return (pl, maxReplies)

def contextOf (labelMap : LabelMap) (pl : VendorPlumbing) (maxReplies : ℤ)
    (gpbkv2json msgToJson : Bool) : Context where
  labelMap := labelMap
  maxReplies := maxReplies.toNat
  delivery := pl.delivery
  writerId := pl.writerId
  labelEncode := pl.labelEncode
  ciscoGpbkv2json := gpbkv2json
  ciscoMsgToJson := msgToJson

def ciscoFsmCtrl (labelMap : LabelMap) (g : Stage → Params) : Check Context := do
  let (pl, maxReplies) ← fsmCtrl g "replies_cisco"
  let gpbkv2json ← raise ((g .dataManipulation).atKey "enable_cisco_gpbkv2json")
  let msgToJson ← raise ((g .dataManipulation).atKey "enable_cisco_message_to_json_string")
  return contextOf labelMap pl maxReplies (gpbkv2json = lit "true") (msgToJson = lit "true")

/-- The other vendors have no flags. -/
def plainFsmCtrl (labelMap : LabelMap) (g : Stage → Params) (repliesKey : String) :
    Check Context := do
  let (pl, maxReplies) ← fsmCtrl g repliesKey
  return contextOf labelMap pl maxReplies false false

def juniperFsmCtrl (labelMap : LabelMap) (g : Stage → Params) : Check Context :=
  plainFsmCtrl labelMap g "replies_juniper"

def nokiaFsmCtrl (labelMap : LabelMap) (g : Stage → Params) : Check Context :=
  plainFsmCtrl labelMap g "replies_nokia"

def huaweiFsmCtrl (labelMap : LabelMap) (g : Stage → Params) : Check Context :=
  plainFsmCtrl labelMap g "replies_huawei"

def Vendor.fsmCtrl : Vendor → LabelMap → (Stage → Params) → Check Context
  | .cisco => ciscoFsmCtrl
  | .juniper => juniperFsmCtrl
  | .nokia => nokiaFsmCtrl
  | .huawei => huaweiFsmCtrl

/-! ### The threads -/

def Vendor.keys : Vendor → VendorKeys
  | .cisco => ⟨"socket_cisco", "ipv4_socket_cisco", "replies_cisco", "cisco_workers"⟩
  | .juniper => ⟨"socket_juniper", "ipv4_socket_juniper", "replies_juniper", "juniper_workers"⟩
  | .nokia => ⟨"socket_nokia", "ipv4_socket_nokia", "replies_nokia", "nokia_workers"⟩
  | .huawei => ⟨"socket_huawei", "ipv4_socket_huawei", "replies_huawei", "huawei_workers"⟩

/-- The socket the thread binds, its credentials and the context of its streams. -/
def vendorThread (labelMap : LabelMap) (g : Stage → Params) (v : Vendor) :
    Check (Bytes × Option (Bytes × Bytes) × Context) := do
  let srvSocket ← raise ((g .main).atKey v.keys.socket)
  let credentials ← raise (makeServerCredentials (g .main))
  let ctx ← v.fsmCtrl labelMap g
  return (srvSocket, credentials, ctx)

/-- The two numbers of a vendor that has a socket. -/
def workerCounts (main : Params) (v : Vendor) : Except StdException (ℤ × ℤ) := do
  let maxReplies ← replies main v.keys.replies
  let workers ← stoi (← main.atKey v.keys.workers)
  return (maxReplies, workers)

def CountsAllowed (maxReplies workers : ℤ) : Prop :=
  0 ≤ maxReplies ∧ maxReplies ≤ 1000 ∧ 1 ≤ workers ∧ workers ≤ 5

instance (maxReplies workers : ℤ) : Decidable (CountsAllowed maxReplies workers) :=
  inferInstanceAs (Decidable (_ ∧ _))

/-- A thread that cannot be created is an exception. -/
def startThreads (H : Host) (v : Vendor) (workers : ℤ) : Check (List Vendor) :=
  if (List.range workers.toNat).all (H.threadStarts v.keys.socket) then
    .ok (List.replicate workers.toNat v)
  else .error .systemError

/-- The process exits on counts it cannot use. -/
def loadThreads (H : Host) (main : Params) (v : Vendor) : Check (List Vendor) := do
  if (← raise (main.atKey v.keys.socket)) = [] then return []
  match workerCounts main v with
  | .error _ => .error .exited
  | .ok (maxReplies, workers) =>
    if CountsAllowed maxReplies workers then startThreads H v workers else .error .exited

/-! ### `main` -/

def corePidPath (main : Params) : Except StdException Bytes := do
  let corePidFolder ← main.atKey "core_pid_folder"
  let corePidFile ← main.atKey "writer_id"
  return corePidFolder ++ lit "/" ++ corePidFile

def labelFile (dm : Params) (enable path : String) : Except StdException (Option Bytes) := do
  if (← dm.atKey enable) ≠ lit "true" then return none
  let file ← dm.atKey path
  return some file

/-- The files that `main` loads the label map from, and `ReloadLabelMaps` again. -/
def labelFiles (dm : Params) : Except StdException (Option Bytes × Option Bytes) := do
  let csv ← labelFile dm "enable_label_encode_as_map" "label_map_csv_path"
  let ptm ← labelFile dm "enable_label_encode_as_map_ptm" "label_map_ptm_path"
  return (csv, ptm)

def listeningSockets (main : Params) : Except StdException (List Bytes) :=
  [Vendor.cisco, .juniper, .nokia, .huawei].mapM fun v => main.atKey v.keys.socket

structure MainSettings where
  corePidPath : Bytes
  labelFiles : Option Bytes × Option Bytes
  sockets : List Bytes
  zmqUri : Bytes

/-- What `main` reads before it starts threads, as far as it gets. -/
def mainSettings (g : Stage → Params) : Except StdException MainSettings := do
  let corePidPath ← corePidPath (g .main)
  let labelFiles ← labelFiles (g .dataManipulation)
  let sockets ← listeningSockets (g .main)
  let zmqUri ← zmqDelivery (g .zmq)
  return ⟨corePidPath, labelFiles, sockets, zmqUri⟩

end MdtDialoutCollector.Core
