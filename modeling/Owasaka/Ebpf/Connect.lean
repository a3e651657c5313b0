import Owasaka.Foundation.Ascii

/-! # Connect events (`network/ebpf/service.go`, `ebpf/bpf/probe.c`)

    The kernel side writes one record for each connection attempt; the service
    reads it back, compares the destination with the configured ports and with the
    known exit nodes, and reports it.

    The address is written in network byte order, read as a little-endian number
    and put back in big-endian order: the two readings do not cancel, and the
    service works with the reversed address. -/

namespace Owasaka.Ebpf

/-! ## Section 1: The record (`probe.c`) -/

/-- What `bpf_get_current_comm` copies: at most 15 bytes before the first zero. -/
structure ProcessName where
  bytes : Bytes
  short : bytes.length ≤ 15
  noZero : 0 ∉ bytes

/-- An IPv4 address, in the order in which it is written. -/
structure Address where
  a : UInt8
  b : UInt8
  c : UInt8
  d : UInt8
  deriving DecidableEq

/-- A connection attempt. -/
structure Attempt where
  pid : UInt32
  name : ProcessName
  address : Address
  port : UInt16

/-- The content of `struct connect_event` on a little-endian host: `pid` in host
    order, `comm` padded with zeros, `daddr` and `dport` in network order. -/
def emitConnectEvent (t : Attempt) : Bytes :=
  Bytes.littleEndian 4 t.pid.toNat
    ++ (t.name.bytes ++ List.replicate (16 - t.name.bytes.length) 0)
    ++ [t.address.a, t.address.b, t.address.c, t.address.d]
    ++ Bytes.bigEndian 2 t.port.toNat

/-! ## Section 2: The service (`service.go`) -/

/-- `connectEvent`. -/
structure ConnectEvent where
  pid : UInt32
  comm : Bytes
  dAddr : UInt32
  dPort : UInt16

structure Service where
  torPorts : List Int
  watchAllEgress : Bool
  /-- `IsExitNode`, when there is a checker. -/
  torNodes : Option (Bytes → Bool)

/-- The event that is pushed into the pipeline. -/
structure TorEvent where
  source : Bytes
  destination : Bytes
  localProcess : Bytes
  pid : UInt32
  torExitNode : Bool
  torPort : Bool
  deriving DecidableEq

/-- The addresses that were looked up, and the event, if there is one. -/
structure Report where
  queries : List Bytes
  event : Option TorEvent
  deriving DecidableEq

/-- `binary.Read` in little-endian order; `none` is an error of a short record. -/
def readConnectEvent (sample : Bytes) : Option ConnectEvent :=
  if sample.length < 26 then none
  else some {
    pid := UInt32.ofNat (Bytes.ofLittleEndian (sample.take 4))
    comm := (sample.drop 4).take 16
    dAddr := UInt32.ofNat (Bytes.ofLittleEndian ((sample.drop 20).take 4))
    dPort := UInt16.ofNat (Bytes.ofLittleEndian ((sample.drop 24).take 2)) }

def ntohs (n : UInt16) : UInt16 := (n <<< 8) ||| (n >>> 8)

def containsInt (haystack : List Int) (needle : Int) : Bool := haystack.any fun v => v == needle

/-- `net.IP.String` of four bytes. -/
def ipString (ip : Bytes) : Bytes :=
  List.intercalate (Bytes.ascii ".") (ip.map fun octet => Bytes.decimal octet.toNat)

/-- `bytes.TrimRight(comm, "\x00")`. -/
def trimRightZeros (comm : Bytes) : Bytes := (comm.reverse.dropWhile fun c => c == 0).reverse

/-- `s.torNodes != nil && s.torNodes.IsExitNode(ip)`, with the call it makes. -/
def checkExitNode (s : Service) (ip : Bytes) : List Bytes × Bool :=
  match s.torNodes with
  | none => ([], false)
  | some isExitNode => ([ip], isExitNode ip)

def handleEvent (s : Service) (ev : ConnectEvent) : Report :=
  let destIP := ipString (Bytes.bigEndian 4 ev.dAddr.toNat)
  let destPort := ntohs ev.dPort
  let isTorPort := containsInt s.torPorts destPort.toNat
  let (queries, isTorExitNode) := checkExitNode s destIP
  if !s.watchAllEgress && !isTorPort && !isTorExitNode then ⟨queries, none⟩
  else
    let comm := trimRightZeros ev.comm
    ⟨queries, some {
      source := Bytes.ascii "pid:" ++ Bytes.decimal ev.pid.toNat ++ Bytes.ascii ":" ++ comm
      destination := destIP ++ Bytes.ascii ":" ++ Bytes.decimal destPort.toNat
      localProcess := comm
      pid := ev.pid
      torExitNode := isTorExitNode
      torPort := isTorPort }⟩

/-- One record of `readLoop`; a record that cannot be read is skipped. -/
def handleRecord (s : Service) (sample : Bytes) : Option Report :=
  (readConnectEvent sample).map (handleEvent s)

/-! ## Section 3: What a record says -/

/-- The text `a.b.c.d`. -/
def Address.text (ip : Address) : Bytes :=
  Bytes.decimal ip.a.toNat ++ Bytes.ascii "." ++ (Bytes.decimal ip.b.toNat ++ Bytes.ascii "."
    ++ (Bytes.decimal ip.c.toNat ++ Bytes.ascii "." ++ Bytes.decimal ip.d.toNat))

def Address.reverse (ip : Address) : Address := ⟨ip.d, ip.c, ip.b, ip.a⟩

/-- The attempt would not be reported, and there is nobody to ask about its address. -/
def Service.Ignores (s : Service) (t : Attempt) : Prop :=
  s.torNodes = none ∧ s.watchAllEgress = false ∧ (t.port.toNat : Int) ∉ s.torPorts

/-- The report of an attempt: its own address is looked up, its own port compared,
    and when it is of interest, an event with its destination, pid and name. -/
structure Reports (s : Service) (t : Attempt) (r : Report) : Prop where
  queries : r.queries = if s.torNodes.isSome then [t.address.text] else []
  ignored : r.event = none ↔ s.watchAllEgress = false ∧ (t.port.toNat : Int) ∉ s.torPorts
    ∧ ∀ isExitNode, s.torNodes = some isExitNode → isExitNode t.address.text = false
  event : ∀ e, r.event = some e →
    e.source = Bytes.ascii "pid:" ++ Bytes.decimal t.pid.toNat ++ Bytes.ascii ":" ++ t.name.bytes
      ∧ e.destination = t.address.text ++ Bytes.ascii ":" ++ Bytes.decimal t.port.toNat
      ∧ e.localProcess = t.name.bytes
      ∧ e.pid = t.pid
      ∧ (e.torExitNode = true ↔ ∃ isExitNode, s.torNodes = some isExitNode
        ∧ isExitNode t.address.text = true)
      ∧ (e.torPort = true ↔ (t.port.toNat : Int) ∈ s.torPorts)

variable {s : Service} {t : Attempt}

/-! ## Section 4: Reading a record back -/

/-- The port is read in the wrong order once and swapped once. -/
theorem ntohs_read (port : UInt16) :
    ntohs (UInt16.ofNat (Bytes.ofLittleEndian (Bytes.bigEndian 2 port.toNat))) = port := by
  obtain ⟨p, hp⟩ : ∃ p, p = port.toNat := ⟨_, rfl⟩
  obtain ⟨hi, hhi⟩ : ∃ hi, hi = p / 256 := ⟨_, rfl⟩
  obtain ⟨lo, hlo⟩ : ∃ lo, lo = p % 256 := ⟨_, rfl⟩
  have hlt : p < 65536 := hp ▸ port.toNat_lt
  have hread : Bytes.ofLittleEndian (Bytes.bigEndian 2 p) = 256 * lo + hi := by
    simp [Bytes.ofLittleEndian, Bytes.ofBigEndian, Bytes.bigEndian]
    omega
  apply UInt16.toNat_inj.mp
  rw [← hp, hread, ntohs, UInt16.toNat_or, UInt16.toNat_shiftLeft, UInt16.toNat_shiftRight,
    UInt16.toNat_ofNat', Nat.mod_eq_of_lt (show 256 * lo + hi < 2 ^ 16 by omega)]
  have hleft : (256 * lo + hi) <<< (UInt16.toNat 8 % 16) % 2 ^ 16 = hi <<< 8 := by
    simp only [Nat.shiftLeft_eq, UInt16.reduceToNat, Nat.reduceMod, Nat.reducePow]
    omega
  have hright : (256 * lo + hi) >>> (UInt16.toNat 8 % 16) = lo := by
    simp only [Nat.shiftRight_eq_div_pow, UInt16.reduceToNat, Nat.reduceMod, Nat.reducePow]
    omega
  rw [hleft, hright, ← Nat.shiftLeft_add_eq_or_of_lt (show lo < 2 ^ 8 by omega), Nat.shiftLeft_eq]
  omega

/-- The address is read in the wrong order and never put right. -/
theorem address_read (ip : Address) :
    Bytes.bigEndian 4 (UInt32.ofNat (Bytes.ofLittleEndian [ip.a, ip.b, ip.c, ip.d])).toNat
      = [ip.d, ip.c, ip.b, ip.a] := by
  have hlt : Bytes.ofBigEndian [ip.d, ip.c, ip.b, ip.a] < 2 ^ 32 := by
    have hbound := Bytes.ofBigEndian_lt [ip.d, ip.c, ip.b, ip.a]
    simpa using hbound
  have hread : Bytes.ofLittleEndian [ip.a, ip.b, ip.c, ip.d]
      = Bytes.ofBigEndian [ip.d, ip.c, ip.b, ip.a] := rfl
  rw [hread, UInt32.toNat_ofNat', Nat.mod_eq_of_lt hlt]
  exact Bytes.bigEndian_ofBigEndian [ip.d, ip.c, ip.b, ip.a]

theorem trimRightZeros_name (name : ProcessName) (k : Nat) :
    trimRightZeros (name.bytes ++ List.replicate k 0) = name.bytes := by
  have hzeros : ∀ c ∈ List.replicate k (0 : UInt8), (c == 0) = true := by
    intro c hc
    rw [List.eq_of_mem_replicate hc]
    rfl
  unfold trimRightZeros
  rw [List.reverse_append, List.reverse_replicate, List.dropWhile_append_of_pos hzeros]
  have hname : (name.bytes.reverse.dropWhile fun c => c == 0) = name.bytes.reverse := by
    cases hrev : name.bytes.reverse with
    | nil => rfl
    | cons c cs =>
      have hmem : c ∈ name.bytes := by
        rw [← List.mem_reverse, hrev]
        exact List.mem_cons_self
      have hne : c ≠ 0 := fun hzero => name.noZero (hzero ▸ hmem)
      rw [List.dropWhile_cons_of_neg (by simpa using hne)]
  rw [hname, List.reverse_reverse]

/-- What the service makes of the record of an attempt. -/
theorem readConnectEvent_emit (t : Attempt) (padding : Bytes) :
    readConnectEvent (emitConnectEvent t ++ padding) = some {
      pid := t.pid
      comm := t.name.bytes ++ List.replicate (16 - t.name.bytes.length) 0
      dAddr := UInt32.ofNat
        (Bytes.ofLittleEndian [t.address.a, t.address.b, t.address.c, t.address.d])
      dPort := UInt16.ofNat (Bytes.ofLittleEndian (Bytes.bigEndian 2 t.port.toNat)) } := by
  -- the record as four fields of known lengths
  obtain ⟨pid, hpid⟩ : ∃ pid, pid = Bytes.littleEndian 4 t.pid.toNat := ⟨_, rfl⟩
  obtain ⟨comm, hcomm⟩ : ∃ comm, comm = t.name.bytes ++ List.replicate (16 - t.name.bytes.length) 0 :=
    ⟨_, rfl⟩
  obtain ⟨port, hport⟩ : ∃ port, port = Bytes.bigEndian 2 t.port.toNat := ⟨_, rfl⟩
  have hpidLen : pid.length = 4 := by rw [hpid, Bytes.length_littleEndian]
  have hcommLen : comm.length = 16 := by
    have hshort := t.name.short
    rw [hcomm, List.length_append, List.length_replicate]
    omega
  have hportLen : port.length = 2 := by rw [hport, Bytes.length_bigEndian]
  have hpidRead : UInt32.ofNat (Bytes.ofLittleEndian pid) = t.pid := by
    rw [hpid, Bytes.ofLittleEndian_littleEndian t.pid.toNat_lt, UInt32.ofNat_toNat]
  have hsample : emitConnectEvent t ++ padding = pid ++ (comm
      ++ ([t.address.a, t.address.b, t.address.c, t.address.d] ++ (port ++ padding))) := by
    simp [emitConnectEvent, hpid, hcomm, hport]
  have hdrop : (emitConnectEvent t ++ padding).drop 20
      = [t.address.a, t.address.b, t.address.c, t.address.d] ++ (port ++ padding) := by
    rw [hsample, ← List.append_assoc, List.drop_left' (by simp [hpidLen, hcommLen])]
  have hlen : ¬ (emitConnectEvent t ++ padding).length < 26 := by
    rw [hsample]
    simp [hpidLen, hcommLen, hportLen]
    omega
  unfold readConnectEvent
  rw [if_neg hlen, ← hcomm, ← hport]
  congr 1
  rw [ConnectEvent.mk.injEq]
  -- each field is read at the offset the struct gives it
  refine ⟨?_, ?_, ?_, ?_⟩
  · rw [hsample, List.take_left' hpidLen, hpidRead]
  · rw [hsample, List.drop_left' hpidLen, List.take_left' hcommLen]
  · rw [hdrop]
    rfl
  · have hdrop' : (emitConnectEvent t ++ padding).drop 24 = port ++ padding := by
      rw [show 24 = 20 + 4 from rfl, ← List.drop_drop, hdrop]
      rfl
    rw [hdrop', List.take_left' hportLen]

theorem ipString_eq (ip : Address) : ipString [ip.a, ip.b, ip.c, ip.d] = ip.text := by
  simp [ipString, Address.text, List.intercalate, List.append_assoc]

theorem containsInt_iff {haystack : List Int} {needle : Int} :
    containsInt haystack needle = true ↔ needle ∈ haystack := by
  simp [containsInt]

theorem checkExitNode_eq {ip : Bytes} {queries : List Bytes} {exit : Bool}
    (hcheck : checkExitNode s ip = (queries, exit)) :
    queries = (if s.torNodes.isSome then [ip] else [])
      ∧ (exit = true ↔ ∃ isExitNode, s.torNodes = some isExitNode ∧ isExitNode ip = true) := by
  unfold checkExitNode at hcheck
  cases hnodes : s.torNodes <;> simp_all

/-- The attempt with its address reversed. -/
def Attempt.reverse (t : Attempt) : Attempt := { t with address := t.address.reverse }

/-- The service reports every attempt as if it went to the reversed address. -/
theorem handleRecord_reverse (s : Service) (t : Attempt) (padding : Bytes) :
    ∃ r, handleRecord s (emitConnectEvent t ++ padding) = some r ∧ Reports s t.reverse r := by
  have hip : ipString [t.address.d, t.address.c, t.address.b, t.address.a] = t.reverse.address.text :=
    ipString_eq t.address.reverse
  refine ⟨_, by rw [handleRecord, readConnectEvent_emit, Option.map_some], ?_⟩
  unfold handleEvent
  simp only [address_read, ntohs_read, trimRightZeros_name, hip]
  obtain ⟨⟨queries, exit⟩, hcheck⟩ : ∃ c, c = checkExitNode s t.reverse.address.text := ⟨_, rfl⟩
  obtain ⟨hqueries, hexit⟩ := checkExitNode_eq hcheck.symm
  obtain ⟨isTorPort, hport⟩ : ∃ p, p = containsInt s.torPorts t.reverse.port.toNat := ⟨_, rfl⟩
  have hmem : isTorPort = true ↔ (t.reverse.port.toNat : Int) ∈ s.torPorts := by
    rw [hport, containsInt_iff]
  have hexitNot : exit = false ↔ ∀ isExitNode, s.torNodes = some isExitNode →
      isExitNode t.reverse.address.text = false := by
    rw [← Bool.not_eq_true, hexit]
    simp
  rw [show containsInt s.torPorts t.port.toNat = isTorPort from hport.symm, ← hcheck]
  by_cases hquiet : (!s.watchAllEgress && !isTorPort && !exit) = true
  · simp only [hquiet]
    simp only [Bool.and_eq_true, Bool.not_eq_true'] at hquiet
    refine ⟨hqueries, ?_, by simp⟩
    rw [← hmem, ← hexitNot]
    simp [hquiet]
  · simp only [hquiet]
    refine ⟨hqueries, ?_, ?_⟩
    · rw [← hmem, ← hexitNot]
      simpa using hquiet
    · rintro e ⟨rfl⟩
      exact ⟨rfl, rfl, rfl, rfl, hexit, hmem⟩

/-! ## Section 5: When the report is that of the attempt -/

theorem Address.text_inj {ip ip' : Address} (heq : ip.text = ip'.text) : ip = ip' := by
  have hdot : Bytes.ascii "." = [46] := rfl
  simp only [Address.text, hdot, List.append_assoc, List.singleton_append] at heq
  obtain ⟨ha, heq⟩ := Bytes.decimal_append_inj rfl heq
  obtain ⟨hb, heq⟩ := Bytes.decimal_append_inj rfl heq
  obtain ⟨hc, heq⟩ := Bytes.decimal_append_inj rfl heq
  have hd := Bytes.decimal_inj heq
  obtain ⟨a, b, c, d⟩ := ip
  obtain ⟨a', b', c', d'⟩ := ip'
  simp_all [UInt8.toNat_inj]

/-- The address of a destination is what stands before its last colon. -/
theorem destination_inj {ip ip' : Address} {port : Nat}
    (heq : ip.text ++ Bytes.ascii ":" ++ Bytes.decimal port
      = ip'.text ++ Bytes.ascii ":" ++ Bytes.decimal port) : ip = ip' := by
  rw [List.append_assoc, List.append_assoc] at heq
  exact Address.text_inj (List.append_cancel_right heq)

theorem Attempt.reverse_eq (hpal : t.address.a = t.address.d ∧ t.address.b = t.address.c) :
    t.reverse = t := by
  obtain ⟨pid, name, ⟨a, b, c, d⟩, port⟩ := t
  simp only at hpal
  obtain ⟨rfl, rfl⟩ := hpal
  rfl

/-- Two attempts that differ in an address nobody looks at have the same reports. -/
theorem Reports.of_ignores {r : Report} (hign : s.Ignores t) (hrep : Reports s t.reverse r) :
    Reports s t r := by
  obtain ⟨hnone, hwatch, hport⟩ := hign
  have hevent : r.event = none := by
    rw [hrep.ignored]
    exact ⟨hwatch, hport, by simp [hnone]⟩
  refine ⟨by simpa [hnone] using hrep.queries, ?_, by simp [hevent]⟩
  rw [hevent]
  simp [hnone, hwatch, hport]

/-- The record of an attempt is reported with its own destination exactly when the
    address reads the same backwards, or nobody asks about it. -/
theorem reported_iff (s : Service) (t : Attempt) (padding : Bytes) :
    (∃ r, handleRecord s (emitConnectEvent t ++ padding) = some r ∧ Reports s t r)
      ↔ (t.address.a = t.address.d ∧ t.address.b = t.address.c) ∨ s.Ignores t := by
  obtain ⟨r, hr, hrev⟩ := handleRecord_reverse s t padding
  constructor
  · rintro ⟨r', hr', hrep⟩
    rw [hr, Option.some.injEq] at hr'
    subst hr'
    -- the same queries, or the same destination, give the same address
    have haddr : t.address = t.address.reverse → t.address.a = t.address.d ∧ t.address.b = t.address.c := by
      intro heq
      exact ⟨congrArg Address.a heq, congrArg Address.b heq⟩
    cases hnodes : s.torNodes with
    | some isExitNode =>
      left
      have hqueries := hrep.queries.symm.trans hrev.queries
      simp only [hnodes, Option.isSome_some, if_true, List.cons.injEq, and_true] at hqueries
      exact haddr (Address.text_inj hqueries)
    | none =>
      cases hevent : r.event with
      | none =>
        obtain ⟨hwatch, hport, _⟩ := hrep.ignored.mp hevent
        exact .inr ⟨hnodes, hwatch, hport⟩
      | some e =>
        left
        obtain ⟨_, hdest, _⟩ := hrep.event e hevent
        obtain ⟨_, hdest', _⟩ := hrev.event e hevent
        exact haddr (destination_inj (hdest.symm.trans hdest'))
  · rintro (hpal | hign)
    · exact ⟨r, hr, Attempt.reverse_eq hpal ▸ hrev⟩
    · exact ⟨r, hr, hrev.of_ignores hign⟩

/-- A service that watches every connection and knows one exit node. -/
def watchAll : Service where
  torPorts := [9001, 9050]
  watchAllEgress := true
  torNodes := some fun ip => ip == Bytes.ascii "1.2.3.4"

/-- `curl` connects to 1.2.3.4, port 443. -/
def curlAttempt : Attempt where
  pid := 4242
  name := ⟨Bytes.ascii "curl", by decide, by decide⟩
  address := ⟨1, 2, 3, 4⟩
  port := 443

/-- A connection to 1.2.3.4 is reported, and looked up, as one to 4.3.2.1. -/
theorem reported_reversed : ¬ (∃ r, handleRecord watchAll (emitConnectEvent curlAttempt ++ [0, 0]) = some r
    ∧ Reports watchAll curlAttempt r) := by
  have hrecord : handleRecord watchAll (emitConnectEvent curlAttempt ++ [0, 0]) = some
      ⟨[Bytes.ascii "4.3.2.1"], some {
        source := Bytes.ascii "pid:4242:curl"
        destination := Bytes.ascii "4.3.2.1:443"
        localProcess := Bytes.ascii "curl"
        pid := 4242
        torExitNode := false
        torPort := false }⟩ := by decide +kernel
  rintro ⟨r, hr, hrep⟩
  rw [hrecord, Option.some.injEq] at hr
  subst hr
  have hqueries := hrep.queries
  revert hqueries
  decide

end Owasaka.Ebpf
