import BoardTest.Lib.CString

/-!
# The QMI proxy (`quectel-qmi-proxy.c`)

One modem is shared by the programs that connect to a local socket. The proxy keeps the connections
with the client ids that the modem has given out to each, and a queue of the control requests that
the modem has not answered yet. What a read of a descriptor returns lies at the start of a static
buffer, with what earlier reads have left behind it.

An event is one descriptor as the `for` loop of `qmi_proxy_loop` handles it; `Proxy.handle` is the
body of that loop, from the time when the server socket is open.
-/

namespace BoardTest.Qmi

/-- A 16-bit field of a packed message, least significant byte first. -/
def le16 (qmi : List Byte) (i : Nat) : Nat :=
  (qmi.getD i 0).toNat + 256 * (qmi.getD (i + 1) 0).toNat

/-- `QMIHdr.Length` -/
def hdrLength (qmi : List Byte) : Nat := le16 qmi 1

/-- `QMIHdr.QMIType` -/
def hdrType (qmi : List Byte) : Byte := qmi.getD 4 0

/-- `QMIHdr.ClientId` -/
def hdrClientId (qmi : List Byte) : Byte := qmi.getD 5 0

/-- `CTLMsg.QMICTLMsgHdr.CtlFlags` -/
def ctlFlags (qmi : List Byte) : Byte := qmi.getD 6 0

/-- `CTLMsg.QMICTLMsgHdrRsp.QMICTLType` -/
def ctlType (qmi : List Byte) : Nat := le16 qmi 8

/-- `QMIResult` and `QMIError` of a control response, and the service and client id behind them. -/
def rspResult (qmi : List Byte) : Nat := le16 qmi 15
def rspError (qmi : List Byte) : Nat := le16 qmi 17
def rspType (qmi : List Byte) : Byte := qmi.getD 22 0
def rspClientId (qmi : List Byte) : Byte := qmi.getD 23 0

def QMUX_TYPE_CTL : Byte := 0x00
def QMICTL_CTL_FLAG_RSP : Byte := 0x01
def QMICTL_GET_CLIENT_ID_RESP : Nat := 0x0022
def QMICTL_RELEASE_CLIENT_ID_RESP : Nat := 0x0023
def QMICTL_REVOKE_CLIENT_ID_IND : Nat := 0x0024

/-- The bytes that `write` is given: as many as the header says. -/
def frame (qmi : List Byte) : List Byte := qmi.take (hdrLength qmi + 1)

/-- `QMI_PROXY_CLINET`: a client id that the modem has given out for a service. -/
structure Clinet where
  qmiType : Byte
  clientId : Byte
deriving DecidableEq

/-- `QMI_PROXY_CONNECTION`; a descriptor is kept as a `uint8_t`. -/
structure Connection where
  clientFd : Byte
  clients : List Clinet
deriving DecidableEq

/-- `QMI_PROXY_MSG`: a control request and the connection it came from. -/
structure Msg where
  clientFd : Byte
  qmi : List Byte
deriving DecidableEq

/-- `qmi_proxy_connection`, `qmi_proxy_ctl_msg`, `qmi_buf` and `modem_reset_flag`, and whether
`qmi_proxy_loop` still runs. -/
structure Proxy where
  connections : List Connection
  ctlMsg : List Msg
  qmiBuf : List Byte
  modemResetFlag : Bool
  looping : Bool

/-- What the proxy does to its descriptors. -/
inductive Action
  | toCdcWdm (bytes : List Byte)
  | toClient (fd : Byte) (bytes : List Byte)
  | close (fd : Byte)
deriving DecidableEq

/-- A descriptor that `poll` has reported; a read of no bytes is one that returns 0 or fails. -/
inductive Event
  | accept (clientfd : Int)
  | modem (bs : List Byte)
  | modemFailed
  | client (fd : Byte) (bs : List Byte)
  | clientFailed (fd : Byte)

/-- `accept_qmi_connection` -/
def acceptQmiConnection (s : Proxy) (clientfd : Int) : Proxy :=
  { s with connections := s.connections ++ [⟨UInt8.ofNat (clientfd % 256).toNat, []⟩] }

/-- `cleanup_qmi_connection`: the first connection with the descriptor is closed, with its client
ids and the first request that it has in the queue. -/
def cleanupQmiConnection (s : Proxy) (clientfd : Byte) : Proxy × List Action :=
  if s.connections.any (·.clientFd = clientfd) then
    ({ s with
        connections := s.connections.eraseP (·.clientFd = clientfd)
        ctlMsg := s.ctlMsg.eraseP (·.clientFd = clientfd) }, [.close clientfd])
  else (s, [])

/-- `get_client_id` -/
def getClientId (con : Connection) (qmi : List Byte) : Connection :=
  if rspResult qmi = 0 ∧ rspError qmi = 0 then
    { con with clients := con.clients ++ [⟨rspType qmi, rspClientId qmi⟩] }
  else con

/-- `release_client_id` -/
def releaseClientId (con : Connection) (qmi : List Byte) : Connection :=
  if rspResult qmi = 0 ∧ rspError qmi = 0 then
    { con with clients := con.clients.erase ⟨rspType qmi, rspClientId qmi⟩ }
  else con

/-- What a control response does to the connection of the request that it answers. -/
def noteResponse (con : Connection) (qmi : List Byte) : Connection :=
  if ctlType qmi = QMICTL_GET_CLIENT_ID_RESP then getClientId con qmi
  else if ctlType qmi = QMICTL_RELEASE_CLIENT_ID_RESP ∨
      ctlType qmi = QMICTL_REVOKE_CLIENT_ID_IND then releaseClientId con qmi
  else con

/-- `recv_qmi`, the first part for a control message: a response goes to the connection at the head
of the queue. -/
def recvResponse (s : Proxy) (qmi : List Byte) : Proxy × List Action :=
  match s.ctlMsg with
  | [] => (s, [])
  | msg :: rest =>
    let asker := s.connections.filter (·.clientFd = msg.clientFd)
    ({ s with
        connections := s.connections.map fun con =>
          if con.clientFd = msg.clientFd then noteResponse con qmi else con
        ctlMsg := rest
        modemResetFlag := s.modemResetFlag ||
          (!asker.isEmpty && ctlType qmi = QMICTL_REVOKE_CLIENT_ID_IND) },
      asker.map fun _ => .toClient msg.clientFd (frame qmi))

/-- `recv_qmi`, the second part for a control message: the head of the queue is sent. -/
def sendHead (s : Proxy) : List Action :=
  match s.ctlMsg with
  | [] => []
  | msg :: _ => (s.connections.filter (·.clientFd = msg.clientFd)).map fun _ =>
      .toCdcWdm (frame msg.qmi)

/-- A message of a service goes to every client id that it is addressed to. -/
def recvService (s : Proxy) (qmi : List Byte) : List Action :=
  s.connections.flatMap fun con =>
    (con.clients.filter fun client => hdrType qmi = client.qmiType ∧
      (hdrClientId qmi = 0 ∨ hdrClientId qmi = client.clientId)).map fun _ =>
        .toClient con.clientFd (frame qmi)

/-- `recv_qmi`, with the server open -/
def recvQmi (s : Proxy) (qmi : List Byte) : Proxy × List Action :=
  if hdrType qmi = QMUX_TYPE_CTL then
    let (s', as) := if ctlFlags qmi = QMICTL_CTL_FLAG_RSP then recvResponse s qmi else (s, [])
    (s', as ++ sendHead s')
  else (s, recvService s qmi)

/-- `send_qmi`, with the server open -/
def sendQmi (s : Proxy) (qmi : List Byte) (size : Nat) (clientfd : Byte) : Proxy × List Action :=
  if hdrType qmi = QMUX_TYPE_CTL then
    ({ s with ctlMsg := s.ctlMsg ++ [⟨clientfd, qmi.take size⟩] },
      if s.ctlMsg.isEmpty then [.toCdcWdm (frame qmi)] else [])
  else (s, [.toCdcWdm (frame qmi)])

/-! ## The loop -/

/-- `read(fd, qmi_buf, ..)` -/
def load (buf bs : List Byte) : List Byte := bs ++ buf.drop bs.length

/-- The connections of a list are closed, one after the other. -/
def closeAll : List Connection → Proxy → Proxy × List Action
  | [], s => (s, [])
  | con :: cons, s =>
    let (s', as) := cleanupQmiConnection s con.clientFd
    let (s'', rest) := closeAll cons s'
    (s'', as ++ rest)

/-- `qmi_proxy_loop_exit` -/
def loopExit (s : Proxy) : Proxy × List Action :=
  let (s', as) := closeAll s.connections s
  ({ s' with looping := false }, as)

/-- The descriptor of the modem is readable. -/
def readModem (s : Proxy) (bs : List Byte) : Proxy × List Action :=
  if bs = [] then loopExit s
  else
    let s := { s with qmiBuf := load s.qmiBuf bs }
    if bs.length = hdrLength s.qmiBuf + 1 then
      let (s', as) := recvQmi s s.qmiBuf
      if s'.modemResetFlag then
        let (s'', rest) := loopExit s'
        (s'', as ++ rest)
      else (s', as)
    else (s, [])

/-- The descriptor of a client is readable. -/
def readClient (s : Proxy) (fd : Byte) (bs : List Byte) : Proxy × List Action :=
  if bs = [] then cleanupQmiConnection s fd
  else
    let s := { s with qmiBuf := load s.qmiBuf bs }
    if bs.length = hdrLength s.qmiBuf + 1 then sendQmi s s.qmiBuf bs.length fd else (s, [])

/-- The body of the loop over the descriptors that `poll` has reported. -/
def Proxy.handle (s : Proxy) (e : Event) : Proxy × List Action :=
  if s.looping then
    match e with
    | .accept clientfd => (acceptQmiConnection s clientfd, [])
    | .modem bs => readModem s bs
    | .modemFailed => loopExit s
    | .client fd bs => readClient s fd bs
    | .clientFailed fd => cleanupQmiConnection s fd
  else (s, [])

/-- The loop as it begins. -/
def Proxy.start (buf : List Byte) : Proxy := ⟨[], [], buf, false, true⟩

end BoardTest.Qmi
