import ManycoreRuntime.Machines
import ManycoreRuntime.PacketWords
import ManycoreRuntime.ReadMem

/-! # Packets between the host and the network

The endpoint casts the host's packets, whose fields are whole bytes, to the packets of the network,
and those of the network to the host's. The host reads and writes the same bits as structures. -/
namespace EndpointToFifos

open BitField (shiftLeft_toNat shiftRight_toNat)
open Configuration (Manycore)
open Coordinate (Errno)
open EvaToNpa (Npa)
open Fallible (bind_eq_ok)
open Machines (Machine)
open PacketEquals (Packet ofRequest)
open Packets PacketWords
open ReadCredits (requestWords)

def joined : List UInt32 → ℕ
  | [] => 0
  | w :: words => w.toNat + 2 ^ 32 * joined words

def slice (bits lo width : ℕ) : ℕ := bits / 2 ^ lo % 2 ^ width

def wordsOf (bits : ℕ) : List UInt32 :=
  (List.range 4).map fun i => UInt32.ofNat (bits / 2 ^ (32 * i))

/-- The widths of the network's fields. -/
structure Widths where
  xCord : ℕ
  yCord : ℕ
  addr : ℕ
  data : ℕ
  regId : ℕ
  op : ℕ
  pktType : ℕ

def padded (width : ℕ) : ℕ := (width + 7) / 8 * 8

structure PacketFields where
  addr : ℕ
  opV2 : ℕ
  regId : ℕ
  payload : ℕ
  srcYCord : ℕ
  srcXCord : ℕ
  yCord : ℕ
  xCord : ℕ
  deriving DecidableEq

structure ReturnFields where
  pktType : ℕ
  data : ℕ
  regId : ℕ
  yCord : ℕ
  xCord : ℕ
  deriving DecidableEq

section Aligned

variable (w : Widths)

/-- `bsg_manycore_packet_aligned_s`; the last field of a packed structure is lowest. -/
def packetAligned (bits : ℕ) : PacketFields :=
  let x := padded w.xCord
  let y := padded w.yCord
  let data := padded w.data
  { xCord := slice bits 0 x
    yCord := slice bits x y
    srcXCord := slice bits (x + y) x
    srcYCord := slice bits (x + y + x) y
    payload := slice bits (x + y + x + y) data
    regId := slice bits (x + y + x + y + data) 8
    opV2 := slice bits (x + y + x + y + data + 8) 8
    addr := slice bits (x + y + x + y + data + 8 + 8) (padded w.addr) }

def packetBits (p : PacketFields) : ℕ :=
  let x := 2 ^ padded w.xCord
  let y := 2 ^ padded w.yCord
  p.xCord + x * (p.yCord + y * (p.srcXCord + x * (p.srcYCord + y * (p.payload +
    2 ^ padded w.data * (p.regId + 2 ^ 8 * (p.opV2 + 2 ^ 8 * p.addr))))))

def returnBits (p : ReturnFields) : ℕ :=
  let x := 2 ^ padded w.xCord
  let y := 2 ^ padded w.yCord
  p.xCord + x * (p.yCord + y * (p.regId + 2 ^ 8 * (p.data + 2 ^ padded w.data * p.pktType)))

/-- The request that the endpoint sends into the network: the fields are cut to the network's
widths, and the source is the endpoint. -/
def packetEpReq (globalX globalY : ℕ) (p : PacketFields) : PacketFields where
  addr := p.addr % 2 ^ w.addr
  opV2 := p.opV2 % 2 ^ w.op
  regId := p.regId % 2 ^ w.regId
  payload := p.payload % 2 ^ w.data
  srcYCord := globalY % 2 ^ w.yCord
  srcXCord := globalX % 2 ^ w.xCord
  yCord := p.yCord % 2 ^ w.yCord
  xCord := p.xCord % 2 ^ w.xCord

/-- What the endpoint makes of a request that came from the network. -/
def mcReqCast (eRemoteStore eRemoteLoad globalX globalY : ℕ) (we : Bool) (p : PacketFields) :
    PacketFields where
  addr := p.addr
  opV2 := if we then eRemoteStore else eRemoteLoad
  regId := p.regId % 2 ^ 8
  payload := p.payload
  srcYCord := p.srcYCord
  srcXCord := p.srcXCord
  yCord := globalY
  xCord := globalX

def mcRspCast (globalX globalY : ℕ) (pktType data regId : ℕ) : ReturnFields where
  pktType := pktType % 2 ^ 8
  data := data
  regId := regId % 2 ^ 8
  yCord := globalY
  xCord := globalX

end Aligned

def fieldsOf (p : Packet) : PacketFields where
  addr := p.addr.toNat
  opV2 := p.opV2.toNat
  regId := p.regId.toNat
  payload := p.payload.toNat
  srcYCord := p.ySrc.toNat
  srcXCord := p.xSrc.toNat
  yCord := p.yDst.toNat
  xCord := p.xDst.toNat

def returnFieldsOf (p : Response) : ReturnFields where
  pktType := p.op.toNat
  data := p.data.toNat
  regId := p.loadId.toNat
  yCord := p.yDst.toNat
  xCord := p.xDst.toNat

/-- The endpoint and the host read the same fields in the same bits. -/
structure FormatsAgree (w : Widths) : Prop where
  epReq : ∀ p reserved, packetAligned w (joined (packetWords p reserved)) = fieldsOf p
  mcReq : ∀ p, requestPacket (wordsOf (packetBits w (fieldsOf p))) = (p, 0)
  mcRsp : ∀ p : Response, p.reserved = (0, 0) →
    responsePacket (wordsOf (returnBits w (returnFieldsOf p))) = p

/-- The widths that the host's structures are made for. -/
structure HostWidths (w : Widths) : Prop where
  xCord : padded w.xCord = 8
  yCord : padded w.yCord = 8
  data : padded w.data = 32
  addr : padded w.addr = 32

section Formats

variable {w : Widths}

theorem joined_packetWords (p : Packet) (reserved : UInt16) :
    joined (packetWords p reserved) =
      p.xDst.toNat + 2 ^ 8 * (p.yDst.toNat + 2 ^ 8 * (p.xSrc.toNat + 2 ^ 8 * (p.ySrc.toNat +
        2 ^ 8 * (p.payload.toNat + 2 ^ 32 * (p.regId.toNat + 2 ^ 8 * (p.opV2.toNat +
          2 ^ 8 * (p.addr.toNat + 2 ^ 32 * reserved.toNat))))))) := by
  simp only [packetWords, joined, ofBytes_toNat, ofBytesHalf_toNat, ofHalves_toNat]
  omega

theorem joined_responseWords (p : Response) :
    joined (responseWords p) =
      p.xDst.toNat + 2 ^ 8 * (p.yDst.toNat + 2 ^ 8 * (p.loadId.toNat + 2 ^ 8 * (p.data.toNat +
        2 ^ 32 * (p.op.toNat + 2 ^ 8 * (p.reserved.1.toNat + 2 ^ 32 * p.reserved.2.toNat))))) := by
  have hdata := p.data.toNat_lt
  simp only [responseWords, joined, ofBytes_toNat]
  rw [byteAt_toNat (k := 0) _ rfl (by decide), byteAt_toNat (k := 8) _ rfl (by decide),
    byteAt_toNat (k := 16) _ rfl (by decide), byteAt_toNat (k := 24) _ rfl (by decide)]
  omega

theorem wordsOf_joined {words : List UInt32} (h : words.length = 4) :
    wordsOf (joined words) = words := by
  obtain ⟨w0, w1, w2, w3, rfl⟩ : ∃ w0 w1 w2 w3, words = [w0, w1, w2, w3] :=
    List.length_eq_four.mp h
  have h0 := w0.toNat_lt
  have h1 := w1.toNat_lt
  have h2 := w2.toNat_lt
  have h3 := w3.toNat_lt
  have hword : ∀ (u : UInt32) (n : ℕ), n % 2 ^ 32 = u.toNat → UInt32.ofNat n = u := by
    intro u n hn
    apply UInt32.toNat_inj.mp
    rw [UInt32.toNat_ofNat']
    exact hn
  simp only [wordsOf, joined, List.range, List.range.loop, List.map_cons, List.map_nil]
  rw [hword w0 _ (by omega), hword w1 _ (by omega), hword w2 _ (by omega), hword w3 _ (by omega)]

theorem slice_ones (n lo width : ℕ) : slice (2 ^ n - 1) lo width = 2 ^ min (n - lo) width - 1 := by
  apply Nat.eq_of_testBit_eq
  intro i
  simp only [slice, Nat.testBit_mod_two_pow, Nat.testBit_div_two_pow, Nat.testBit_two_pow_sub_one]
  rw [Bool.eq_iff_iff]
  simp only [Bool.and_eq_true, decide_eq_true_eq]
  omega

theorem width_of_ones {lo width k : ℕ} (hk : k < 128 - lo)
    (h : slice (2 ^ 128 - 1) lo width = 2 ^ k - 1) : width = k := by
  rw [slice_ones] at h
  have hpow : 2 ^ min (128 - lo) width = 2 ^ k := by
    have hleft := Nat.one_le_two_pow (n := min (128 - lo) width)
    have hright := Nat.one_le_two_pow (n := k)
    omega
  have hmin := Nat.pow_right_injective (le_refl 2) hpow
  omega

/-- A packet of ones shows the widths of the fields. -/
theorem hostWidths_of_agree (h : FormatsAgree w) : HostWidths w := by
  have hones := h.epReq ⟨255, 255, 255, 255, 0xffffffff, 255, 255, 0xffffffff⟩ 0xffff
  have hbits : joined (packetWords ⟨255, 255, 255, 255, 0xffffffff, 255, 255, 0xffffffff⟩ 0xffff) =
      2 ^ 128 - 1 := by
    rw [joined_packetWords]
    rfl
  rw [hbits] at hones
  have hx : padded w.xCord = 8 :=
    @width_of_ones 0 _ _ (by decide) (congrArg PacketFields.xCord hones)
  have hy : padded w.yCord = 8 := by
    have hfield := congrArg PacketFields.yCord hones
    simp only [packetAligned, hx] at hfield
    exact width_of_ones (by decide) hfield
  have hdata : padded w.data = 32 := by
    have hfield := congrArg PacketFields.payload hones
    simp only [packetAligned, hx, hy] at hfield
    exact width_of_ones (by decide) hfield
  have haddr : padded w.addr = 32 := by
    have hfield := congrArg PacketFields.addr hones
    simp only [packetAligned, hx, hy, hdata] at hfield
    exact width_of_ones (by decide) hfield
  exact ⟨hx, hy, hdata, haddr⟩

theorem epReq_fields (h : HostWidths w) (p : Packet) (reserved : UInt16) :
    packetAligned w (joined (packetWords p reserved)) = fieldsOf p := by
  have h0 := p.xDst.toNat_lt
  have h1 := p.yDst.toNat_lt
  have h2 := p.xSrc.toNat_lt
  have h3 := p.ySrc.toNat_lt
  have h4 := p.payload.toNat_lt
  have h5 := p.regId.toNat_lt
  have h6 := p.opV2.toNat_lt
  have h7 := p.addr.toNat_lt
  simp only [packetAligned, h.xCord, h.yCord, h.data, h.addr, joined_packetWords, slice, fieldsOf,
    PacketFields.mk.injEq]
  refine ⟨?_, ?_, ?_, ?_, ?_, ?_, ?_, ?_⟩ <;> omega

theorem mcReq_fields (h : HostWidths w) (p : Packet) :
    requestPacket (wordsOf (packetBits w (fieldsOf p))) = (p, 0) := by
  have hbits : packetBits w (fieldsOf p) = joined (packetWords p 0) := by
    rw [joined_packetWords]
    simp only [packetBits, fieldsOf, h.xCord, h.yCord, h.data]
    rfl
  rw [hbits, wordsOf_joined rfl]
  exact requestPacket_packetWords p 0

theorem mcRsp_fields (h : HostWidths w) (p : Response) (hp : p.reserved = (0, 0)) :
    responsePacket (wordsOf (returnBits w (returnFieldsOf p))) = p := by
  have hbits : returnBits w (returnFieldsOf p) = joined (responseWords p) := by
    rw [joined_responseWords, hp]
    simp only [returnBits, returnFieldsOf, h.xCord, h.yCord, h.data]
    rfl
  rw [hbits, wordsOf_joined rfl]
  exact responsePacket_responseWords p

/-- The endpoint's packets are the host's exactly if its coordinates have at most eight bits, and
its addresses and its data take up four bytes. -/
theorem formats_agree_iff (w : Widths) : FormatsAgree w ↔ HostWidths w :=
  ⟨hostWidths_of_agree, fun h => ⟨epReq_fields h, mcReq_fields h, mcRsp_fields h⟩⟩

end Formats

structure InRange (w : Widths) (p : PacketFields) : Prop where
  addr : p.addr < 2 ^ w.addr
  payload : p.payload < 2 ^ w.data
  mask : p.regId < 2 ^ 8
  srcYCord : p.srcYCord < 2 ^ w.yCord
  srcXCord : p.srcXCord < 2 ^ w.xCord

theorem lt_of_padded {width k v : ℕ} (h : padded width = k) (hv : v < 2 ^ width) : v < 2 ^ k := by
  refine lt_of_lt_of_le hv (Nat.pow_le_pow_right (by decide) ?_)
  unfold padded at h
  omega

/-- The host finds a tile's store as the tile sent it, with the source that the network gave. -/
theorem tile_store_kept {w : Widths} (h : HostWidths w) {p : PacketFields} (hp : InRange w p)
    {eRemoteStore eRemoteLoad globalX globalY : ℕ} (hop : eRemoteStore < 2 ^ 8)
    (hx : globalX < 2 ^ 8) (hy : globalY < 2 ^ 8) :
    requestPacket (wordsOf (packetBits w
        (mcReqCast eRemoteStore eRemoteLoad globalX globalY true p))) =
      (⟨UInt8.ofNat globalX, UInt8.ofNat globalY, UInt8.ofNat p.srcXCord, UInt8.ofNat p.srcYCord,
        UInt32.ofNat p.payload, UInt8.ofNat p.regId, UInt8.ofNat eRemoteStore,
        UInt32.ofNat p.addr⟩, 0) := by
  have haddr := lt_of_padded h.addr hp.addr
  have hpayload := lt_of_padded h.data hp.payload
  have hsx := lt_of_padded h.xCord hp.srcXCord
  have hsy := lt_of_padded h.yCord hp.srcYCord
  have hmask := hp.mask
  rw [← mcReq_fields h]
  congr 3
  simp only [mcReqCast, fieldsOf, if_true, UInt8.toNat_ofNat', UInt32.toNat_ofNat',
    Nat.mod_eq_of_lt haddr, Nat.mod_eq_of_lt hpayload, Nat.mod_eq_of_lt hsx, Nat.mod_eq_of_lt hsy,
    Nat.mod_eq_of_lt hmask, Nat.mod_eq_of_lt hop, Nat.mod_eq_of_lt hx, Nat.mod_eq_of_lt hy]

section Loads

variable (w : Widths) (globalX globalY : ℕ)

def networkPacket (rqst : RequestPacket) (reserved : UInt16) : PacketFields :=
  packetEpReq w globalX globalY (packetAligned w (joined (requestWords rqst reserved)))

def hostResponse (pktType data regId : ℕ) : Response :=
  responsePacket (wordsOf (returnBits w (mcRspCast globalX globalY pktType data regId)))

/-- The load `rqst` goes to the place `npa`, and each answer to it names it by its id. -/
structure LoadKept (npa : Npa) (id : ℕ) (rqst : RequestPacket) (reserved : UInt16) : Prop where
  x : (networkPacket w globalX globalY rqst reserved).xCord = npa.x.toNat
  y : (networkPacket w globalX globalY rqst reserved).yCord = npa.y.toNat
  addr : (networkPacket w globalX globalY rqst reserved).addr = npa.epa.toNat / 4
  loadId : ∀ pktType data, data < 2 ^ 32 → (hostResponse w globalX globalY pktType data
    (networkPacket w globalX globalY rqst reserved).regId).loadId.toNat = id
  data : ∀ pktType data, data < 2 ^ 32 → (hostResponse w globalX globalY pktType data
    (networkPacket w globalX globalY rqst reserved).regId).data.toNat = data

/-- Each load of the runtime, to an address that the network has. -/
def LoadsKept (mc : Manycore) : Prop :=
  ∀ npa sz id tx rqst reserved, id < ReadMem.nIds mc → npa.epa.toNat < 4 * 2 ^ w.addr →
    sendReadRqst mc npa sz (UInt32.ofNat id) tx = .ok rqst →
    LoadKept w globalX globalY npa id rqst reserved

/-- The endpoint of a machine: it is made for the host's structures, and its coordinates are
those of the configuration. -/
structure EndpointOf (mc : Manycore) : Prop where
  host : HostWidths w
  regId : w.regId ≤ 8
  xCord : w.xCord = mc.config.nocCoordWidth.x.toNat
  yCord : w.yCord = mc.config.nocCoordWidth.y.toNat
  globalX : globalX < 2 ^ 8
  globalY : globalY < 2 ^ 8

end Loads

section LoadProof

variable {w : Widths} {globalX globalY : ℕ} {mc : Manycore}

theorem hostResponse_fields (h : EndpointOf w globalX globalY mc) {pktType data regId : ℕ}
    (hdata : data < 2 ^ 32) :
    (hostResponse w globalX globalY pktType data regId).loadId.toNat = regId % 2 ^ 8 ∧
      (hostResponse w globalX globalY pktType data regId).data.toNat = data := by
  have hx := h.globalX
  have hy := h.globalY
  have hcast : mcRspCast globalX globalY pktType data regId = returnFieldsOf
      ⟨UInt8.ofNat globalX, UInt8.ofNat globalY, UInt8.ofNat regId, UInt32.ofNat data,
        UInt8.ofNat pktType, (0, 0)⟩ := by
    simp only [mcRspCast, returnFieldsOf, UInt8.toNat_ofNat', UInt32.toNat_ofNat',
      Nat.mod_eq_of_lt hdata, Nat.mod_eq_of_lt hx, Nat.mod_eq_of_lt hy]
  rw [hostResponse, hcast, mcRsp_fields h.host _ rfl]
  exact ⟨UInt8.toNat_ofNat', UInt32.toNat_ofNat_of_lt' hdata⟩

theorem networkPacket_eq (h : HostWidths w) (rqst : RequestPacket) (reserved : UInt16) :
    networkPacket w globalX globalY rqst reserved =
      packetEpReq w globalX globalY (fieldsOf (ofRequest rqst)) := by
  rw [networkPacket, requestWords_eq, epReq_fields h]

theorem sendReadRqst_fields {npa : Npa} {sz : ℕ} {id : UInt32} {tx : Except Errno Unit}
    {rqst : RequestPacket} (h : sendReadRqst mc npa sz id tx = .ok rqst) :
    (npa.x < mc.config.dimensionNetwork.x ∧ npa.y < mc.config.dimensionNetwork.y) ∧
      rqst.xDst = npa.x.toUInt8 ∧ rqst.yDst = npa.y.toUInt8 ∧ rqst.addr = npa.epa >>> 2 ∧
      rqst.regId = id.toUInt8 := by
  simp only [sendReadRqst, formatLoadRequestPacket, formatRequestPacket, bind_eq_ok] at h
  obtain ⟨pkt, ⟨pkt', hpkt', hpkt⟩, u, -, v, -, he⟩ := h
  split at hpkt'
  · next hvalid =>
    simp only [dstNpaIsValid, Bool.and_eq_true, decide_eq_true_eq] at hvalid
    cases hpkt'
    cases hpkt
    cases he
    exact ⟨hvalid, rfl, rfl, rfl, rfl⟩
  · cases hpkt'

theorem coordinate_fits {width : ℕ} {n c : UInt32} (hwidth : padded width = 8)
    (hn : width = n.toNat) (hc : c < 1 <<< n) : c.toNat < 2 ^ width ∧ width ≤ 8 := by
  have hle : width ≤ 8 := by
    unfold padded at hwidth
    omega
  refine ⟨?_, hle⟩
  have hpow : 2 ^ width < 2 ^ 32 := Nat.pow_lt_pow_right (by decide) (by omega)
  rw [UInt32.lt_iff_toNat_lt, shiftLeft_toNat (by omega), ← hn] at hc
  simp only [UInt32.reduceToNat, Nat.one_mul] at hc
  rw [Nat.mod_eq_of_lt hpow] at hc
  exact hc

theorem loadsKept_of_cap (h : EndpointOf w globalX globalY mc)
    (hcap : ReadMem.nIds mc ≤ 2 ^ w.regId) : LoadsKept w globalX globalY mc := by
  intro npa sz id tx rqst reserved hid hepa hsend
  obtain ⟨⟨hx, hy⟩, hxDst, hyDst, haddr, hregId⟩ := sendReadRqst_fields hsend
  obtain ⟨hxlt, hx8⟩ := coordinate_fits h.host.xCord h.xCord hx
  obtain ⟨hylt, hy8⟩ := coordinate_fits h.host.yCord h.yCord hy
  have hpow : 2 ^ w.regId ≤ 2 ^ 8 := Nat.pow_le_pow_right (by decide) h.regId
  have hcut : ∀ {c : UInt32} {width : ℕ}, c.toNat < 2 ^ width → width ≤ 8 →
      c.toUInt8.toNat % 2 ^ width = c.toNat := by
    intro c width hc hw
    have hw8 : 2 ^ width ≤ 2 ^ 8 := Nat.pow_le_pow_right (by decide) hw
    rw [UInt32.toNat_toUInt8, Nat.mod_eq_of_lt (lt_of_lt_of_le hc hw8), Nat.mod_eq_of_lt hc]
  have hregNat : rqst.regId.toNat = id := by
    have hid8 : id < 2 ^ 8 := by omega
    have hid32 : id < 2 ^ 32 := by omega
    rw [hregId, UInt32.toNat_toUInt8, UInt32.toNat_ofNat_of_lt' hid32, Nat.mod_eq_of_lt hid8]
  have hnet : (networkPacket w globalX globalY rqst reserved).regId = id := by
    rw [networkPacket_eq h.host]
    show rqst.regId.toNat % 2 ^ w.regId = id
    rw [hregNat]
    exact Nat.mod_eq_of_lt (lt_of_lt_of_le hid hcap)
  constructor
  · rw [networkPacket_eq h.host]
    show rqst.xDst.toNat % 2 ^ w.xCord = npa.x.toNat
    rw [hxDst]
    exact hcut hxlt hx8
  · rw [networkPacket_eq h.host]
    show rqst.yDst.toNat % 2 ^ w.yCord = npa.y.toNat
    rw [hyDst]
    exact hcut hylt hy8
  · rw [networkPacket_eq h.host]
    show rqst.addr.toNat % 2 ^ w.addr = npa.epa.toNat / 4
    rw [haddr, shiftRight_toNat (by decide)]
    simp only [UInt32.reduceToNat, Nat.reducePow]
    exact Nat.mod_eq_of_lt (by omega)
  · intro pktType data hdata
    rw [hnet, (hostResponse_fields h hdata).1]
    exact Nat.mod_eq_of_lt (by omega)
  · intro pktType data hdata
    exact (hostResponse_fields h hdata).2

theorem exists_load (h : EndpointOf w globalX globalY mc) (id : UInt32) :
    ∃ rqst, sendReadRqst mc ⟨0, 0, 0⟩ 4 id (.ok ()) = .ok rqst := by
  have hpos : ∀ {width : ℕ} {n : UInt32}, padded width = 8 → width = n.toNat →
      (0 : UInt32) < 1 <<< n := by
    intro width n hwidth hn
    have hlt : width ≤ 8 := by
      unfold padded at hwidth
      omega
    have hpow : 2 ^ width < 2 ^ 32 := Nat.pow_lt_pow_right (by decide) (by omega)
    rw [UInt32.lt_iff_toNat_lt, shiftLeft_toNat (by omega), ← hn]
    simp only [UInt32.reduceToNat, Nat.one_mul]
    rw [Nat.mod_eq_of_lt hpow]
    exact Nat.two_pow_pos width
  have hvalid : dstNpaIsValid mc ⟨0, 0, 0⟩ = true := by
    simp only [dstNpaIsValid, Bool.and_eq_true, decide_eq_true_eq]
    exact ⟨hpos h.host.xCord h.xCord, hpos h.host.yCord h.yCord⟩
  cases hsend : sendReadRqst mc ⟨0, 0, 0⟩ 4 id (.ok ()) with
  | ok rqst => exact ⟨rqst, rfl⟩
  | error e =>
    simp only [sendReadRqst, formatLoadRequestPacket, formatRequestPacket, hvalid, if_true] at hsend
    cases hsend

/-- The loads of the runtime go to their places, and their answers name them, exactly if the ids
that the runtime uses fit the network's field. -/
theorem loads_kept_iff (h : EndpointOf w globalX globalY mc) (hcap : ReadMem.nIds mc ≤ 256) :
    LoadsKept w globalX globalY mc ↔ ReadMem.nIds mc ≤ 2 ^ w.regId := by
  refine ⟨fun hkept => ?_, loadsKept_of_cap h⟩
  by_contra hlt
  -- the first id that does not fit comes back as zero
  have hid : 2 ^ w.regId < ReadMem.nIds mc := by omega
  obtain ⟨rqst, hsend⟩ := exists_load h (UInt32.ofNat (2 ^ w.regId))
  have hload := hkept ⟨0, 0, 0⟩ 4 (2 ^ w.regId) (.ok ()) rqst 0 hid
    (Nat.mul_pos (by decide) (Nat.two_pow_pos _)) hsend
  have hback := hload.loadId 0 0 (by decide)
  have hregId : rqst.regId.toNat = 2 ^ w.regId := by
    have hid8 : 2 ^ w.regId < 2 ^ 8 := by omega
    have hid32 : 2 ^ w.regId < 2 ^ 32 := by omega
    rw [(sendReadRqst_fields hsend).2.2.2.2, UInt32.toNat_toUInt8,
      UInt32.toNat_ofNat_of_lt' hid32, Nat.mod_eq_of_lt hid8]
  have hzero : (networkPacket w globalX globalY rqst 0).regId = 0 := by
    rw [networkPacket_eq h.host]
    show rqst.regId.toNat % 2 ^ w.regId = 0
    rw [hregId, Nat.mod_self]
  rw [hzero, (hostResponse_fields h (by decide)).1] at hback
  exact absurd hback (Nat.two_pow_pos _).ne

def machineWidths : Widths := ⟨7, 7, 28, 32, 5, 4, 2⟩

theorem loads_kept_iff_onePod : LoadsKept machineWidths 16 0 ⟨({} : Machine).config, true⟩ :=
  (loads_kept_iff ⟨⟨by decide, by decide, by decide, by decide⟩, by decide, by decide, by decide,
    by decide, by decide⟩ (by decide)).mpr (by decide)

end LoadProof

end EndpointToFifos
