import Mathlib.Data.BitVec
import OpenDDS.Guarantees.HeaderFormat
import OpenDDS.Library.Bracketing
import OpenDDS.Source.HeaderSplit
import OpenDDS.Source.TransportReassembly

/-!
# Fragments of a message make up the message

`split` of a message that is too long yields a head that fits and a tail with the rest. However
often the tails are split again, the headers of the pieces can be joined in any order, and what
comes out is the header of the message, with its content-filter entries in some order.

A head has the flag for more fragments set and a tail does not, whatever the message had. `split`
of a message that is not too long, or has no payload, has no meaning.
-/
namespace OpenDDS.Guarantees.HeaderFragmentation
open Library Library.Chain Source.Serializer Source.DataSampleHeader Source.HeaderSplit
open Source.TransportReassembly HeaderFormat

variable (host : ByteOrder)

section

/-- The header that `init` makes of the bytes of a header with its entries. -/
def received (h : Header) : Header := decoded (create host) h h.contentFilterEntries

def wire (h : Header) : List UInt8 := wireBytes host h h.contentFilterEntries

def wireSize (h : Header) : Nat :=
  payloadSizes h.values + if h.contentFilter then guidSeqSize h.contentFilterEntries else 0

/-- The optional fields that the flags leave out are what the constructor sets. -/
structure Trimmed (h : Header) : Prop where
  lifespan : h.lifespanDuration = false → h.lifespanDurationSec = 0 ∧ h.lifespanDurationNanosec = 0
  group : h.groupCoherent = false → h.publisherId = (create host).publisherId

theorem wire_length (h : Header) : (wire host h).length = wireSize h :=
  wireBytes_length host h h.contentFilterEntries

theorem received_eq (h : Header) :
    received host h = { h with
      lifespanDurationSec := if h.lifespanDuration then h.lifespanDurationSec else 0
      lifespanDurationNanosec := if h.lifespanDuration then h.lifespanDurationNanosec else 0
      publisherId := if h.groupCoherent then h.publisherId else (create host).publisherId
      contentFilterEntries := if h.contentFilter then h.contentFilterEntries else []
      marshaledSize := wireSize h } := by
  unfold received decoded wireSize afterOptional afterFixed afterIds
  cases hfilter : h.contentFilter with
  | true => rfl
  | false =>
    simp only [Bool.false_eq_true, if_false, Nat.add_zero]
    rfl

theorem received_trimmed (h : Header) : Trimmed host (received host h) := by
  rw [received_eq]
  constructor
  · intro hfalse
    exact ⟨if_neg (by simpa using hfalse), if_neg (by simpa using hfalse)⟩
  · intro hfalse
    exact if_neg (by simpa using hfalse)

theorem received_of_trimmed {h : Header} (ht : Trimmed host h) :
    received host h = { h with
      contentFilterEntries := if h.contentFilter then h.contentFilterEntries else []
      marshaledSize := wireSize h } := by
  have hsec : (if h.lifespanDuration then h.lifespanDurationSec else 0) =
      h.lifespanDurationSec := by
    cases hflag : h.lifespanDuration with
    | true => rfl
    | false => exact (ht.lifespan hflag).1.symm
  have hnanosec : (if h.lifespanDuration then h.lifespanDurationNanosec else 0) =
      h.lifespanDurationNanosec := by
    cases hflag : h.lifespanDuration with
    | true => rfl
    | false => exact (ht.lifespan hflag).2.symm
  have hgroup : (if h.groupCoherent then h.publisherId else (create host).publisherId) =
      h.publisherId := by
    cases hflag : h.groupCoherent with
    | true => rfl
    | false => exact (ht.group hflag).symm
  rw [received_eq, hsec, hnanosec, hgroup]

theorem received_values (h : Header) : (received host h).values = h.values := by
  rw [received_eq]
  simp only [Header.values, Header.flags, Header.flags2]
  cases h.lifespanDuration <;> cases h.groupCoherent <;>
    simp only [Bool.false_eq_true, if_true, if_false]

theorem received_filter (h : Header) :
    (received host h).contentFilter = h.contentFilter ∧
    (received host h).byteOrder = h.byteOrder ∧
    (received host h).contentFilterEntries =
      (if h.contentFilter then h.contentFilterEntries else []) ∧
    (received host h).marshaledSize = wireSize h := by
  rw [received_eq]
  exact ⟨rfl, rfl, rfl, rfl⟩

theorem received_wireSize (h : Header) : wireSize (received host h) = wireSize h := by
  obtain ⟨hfilter, -, hentries, -⟩ := received_filter host h
  unfold wireSize
  rw [received_values, hfilter, hentries]
  cases h.contentFilter <;> rfl

theorem received_wire (h : Header) : wire host (received host h) = wire host h := by
  obtain ⟨hfilter, horder, hentries, -⟩ := received_filter host h
  unfold wire wireBytes
  rw [received_values, hfilter, horder, hentries]
  cases h.contentFilter <;> rfl

end

/-- A chain that holds a header as `init` returns it, with its entries, and a payload. -/
structure Message (chain : List (Block UInt8)) (hdr : Header) (payload : List UInt8) : Prop where
  trimmed : Trimmed host hdr
  entries : hdr.contentFilter = false → hdr.contentFilterEntries = []
  size : hdr.marshaledSize = wireSize hdr
  count : hdr.contentFilterEntries.length < 2 ^ 32
  contents : contents chain = wire host hdr ++ payload
  /-- The first block holds nothing of the payload. -/
  first : ∀ b ∈ chain.head?, b.items.length ≤ wireSize hdr

/-- What `init` makes of a chain: a header, and the bytes behind it. -/
def Carries (chain : List (Block UInt8)) (hdr : Header) (payload : List UInt8) : Prop :=
  ∃ r, init host (create host) chain = .ok ⟨hdr, r⟩ ∧ r.goodBit = true ∧
    contents r.current = payload

section

variable {host}
variable {chain : List (Block UInt8)} {hdr : Header} {payload : List UInt8}

theorem message_of_wire (h : Header) (hcount : h.contentFilterEntries.length < 2 ^ 32)
    (hcontents : Chain.contents chain = wire host h ++ payload)
    (hfirst : ∀ b ∈ chain.head?, b.items.length ≤ wireSize h) :
    Message host chain (received host h) payload := by
  obtain ⟨hfilter, -, hentries, hsize⟩ := received_filter host h
  refine ⟨received_trimmed host h, ?_, ?_, ?_, ?_, ?_⟩
  · intro hfalse
    rw [hfilter] at hfalse
    rw [hentries, hfalse]
    rfl
  · rw [hsize, received_wireSize]
  · rw [hentries]
    split
    · exact hcount
    · decide
  · rw [received_wire]
    exact hcontents
  · rw [received_wireSize]
    exact hfirst

theorem Message.received (h : Message host chain hdr payload) : received host hdr = hdr := by
  have hentries : (if hdr.contentFilter then hdr.contentFilterEntries else []) =
      hdr.contentFilterEntries := by
    cases hfilter : hdr.contentFilter with
    | true => rfl
    | false => exact (h.entries hfilter).symm
  rw [received_of_trimmed host h.trimmed, hentries, ← h.size]

theorem Message.carries (h : Message host chain hdr payload) : Carries host chain hdr payload := by
  obtain ⟨r, hinit, hgood, hcontents⟩ :=
    init_ok host (create host) hdr hdr.contentFilterEntries h.count chain payload h.contents
  have hread : decoded (create host) hdr hdr.contentFilterEntries = hdr := h.received
  rw [hread] at hinit
  exact ⟨r, hinit, hgood, hcontents⟩

theorem Message.totalLength (h : Message host chain hdr payload) :
    totalLength chain = wireSize hdr + payload.length := by
  rw [Source.Serializer.totalLength, h.contents, List.length_append, wire_length]

end

section

variable (alloc : Allocator)

theorem headerBlock_entries (call : Nat) (hdr : Header) (guids : List GUID) :
    headerBlock host alloc call { hdr with contentFilterEntries := guids } =
      headerBlock host alloc call hdr := by
  have hvalues : Header.values { hdr with contentFilterEntries := guids } = hdr.values := by
    simp only [Header.values, Header.flags, Header.flags2]
  simp only [headerBlock, marshal, hvalues]

theorem headerBlock_ok (call : Nat) (hdr : Header) :
    ∃ mb, headerBlock host alloc call hdr = .ok mb ∧
      mb.items = payloads host (hdr.byteOrder != aceCdrByteOrder host) hdr.values := by
  obtain ⟨w, hw, -, hwritten⟩ := marshal_ok host hdr
    (Nat.le_of_eq (alloc.length_block call maxMarshaledSize).symm)
  refine ⟨{ alloc.block call maxMarshaledSize with items := w.written }, ?_, hwritten⟩
  simp only [headerBlock, hw]

theorem entriesBlock_ok (call : Nat) (hdr : Header) (guids : List GUID) {mb : Block UInt8}
    (hmb : mb.items = payloads host (hdr.byteOrder != aceCdrByteOrder host) hdr.values) :
    ∃ optHdr, entriesBlock host alloc call guids mb = .ok optHdr ∧
      optHdr.items =
        payloads host (hdr.byteOrder != aceCdrByteOrder host) (guidSeqValues guids) := by
  obtain ⟨opt, hopt, hwritten⟩ :=
    addCfentries_ok host hdr guids (alloc.length_block call (guidSeqSize guids))
  refine ⟨{ alloc.block call (guidSeqSize guids) with items := opt.written }, ?_, hwritten⟩
  simp only [entriesBlock, hmb, hopt]

/-- The first block of a chain is no longer than the header it starts with. -/
def Leads (hdr : Header) (chain : List (Block UInt8)) : Prop :=
  ∀ b ∈ chain.head?, b.items.length ≤ wireSize hdr

theorem leads_cons {hdr : Header} {mb : Block UInt8} {rest : List (Block UInt8)}
    (hmb : mb.items = payloads host (hdr.byteOrder != aceCdrByteOrder host) hdr.values) :
    Leads hdr (mb :: rest) := by
  intro b hb
  obtain rfl : mb = b := Option.some.inj hb
  rw [hmb, payloads_length, wireSize]
  exact Nat.le_add_right _ _

theorem withHeader_ok (call : Nat) (hdr : Header) (payload : List (Block UInt8)) :
    ∃ chain, withHeader host alloc call hdr payload = .ok chain ∧
      contents chain = wire host hdr ++ contents payload ∧ Leads hdr chain := by
  obtain ⟨mb, hmb, hitems⟩ := headerBlock_ok host alloc call hdr
  obtain ⟨optHdr, hopt, hoptItems⟩ :=
    entriesBlock_ok host alloc (call + 1) hdr hdr.contentFilterEntries hitems
  unfold withHeader wire wireBytes
  simp only [hmb, hopt]
  cases hdr.contentFilter with
  | true =>
    refine ⟨_, rfl, ?_, leads_cons host hitems⟩
    rw [contents_cons, contents_cons, hitems, hoptItems, List.append_assoc]
    rfl
  | false =>
    refine ⟨_, rfl, ?_, leads_cons host hitems⟩
    rw [contents_cons, hitems]
    simp

end

section

def core (h : Header) : Header :=
  { h with moreFragments := false, messageLength := 0, contentFilter := false
           contentFilterEntries := [], marshaledSize := 0 }

/-- The headers of fragments that make up a message with the header `hdr`. -/
structure Fragments (hdr : Header) (fragments : List Header) : Prop where
  core : ∀ f ∈ fragments, core f = core hdr
  heads : ∀ f ∈ fragments.dropLast, f.moreFragments = true
  last : ∀ f ∈ fragments.getLast?, f.moreFragments = hdr.moreFragments
  messageLength : (fragments.map Header.messageLength).sum = hdr.messageLength
  contentFilter : fragments.any Header.contentFilter = hdr.contentFilter
  entries : (fragments.flatMap Header.contentFilterEntries).Perm hdr.contentFilterEntries
  unfiltered : ∀ f ∈ fragments, f.contentFilter = false → f.contentFilterEntries = []

/-- A header that is the other one up to the order of its content-filter entries. -/
structure Restores (hdr joined : Header) : Prop where
  entries : joined.contentFilterEntries.Perm hdr.contentFilterEntries
  fields : { joined with contentFilterEntries := hdr.contentFilterEntries
                         marshaledSize := hdr.marshaledSize } = hdr

variable {hdr : Header} {fragments : List Header}

theorem Fragments.restores (h : Fragments hdr fragments) {joined : Header}
    (h' : Fragments joined fragments) (hne : fragments ≠ []) : Restores hdr joined := by
  have hlast := List.getLast?_eq_some_getLast hne
  have hcore : HeaderFragmentation.core joined = HeaderFragmentation.core hdr :=
    (h'.core _ (List.getLast_mem hne)).symm.trans (h.core _ (List.getLast_mem hne))
  have hmore : joined.moreFragments = hdr.moreFragments :=
    (h'.last _ hlast).symm.trans (h.last _ hlast)
  have hlength : joined.messageLength = hdr.messageLength := h'.messageLength.symm.trans h.messageLength
  have hfilter : joined.contentFilter = hdr.contentFilter := h'.contentFilter.symm.trans h.contentFilter
  refine ⟨h'.entries.symm.trans h.entries, ?_⟩
  show { HeaderFragmentation.core joined with
    moreFragments := joined.moreFragments, messageLength := joined.messageLength
    contentFilter := joined.contentFilter, contentFilterEntries := hdr.contentFilterEntries
    marshaledSize := hdr.marshaledSize } = hdr
  rw [hcore, hmore, hlength, hfilter]
  rfl

/-- What `join` needs of a list of fragments. -/
structure Joinable (hdr : Header) (fragments : List Header) : Prop where
  core : ∀ f ∈ fragments, core f = core hdr
  heads : ∀ f ∈ fragments.dropLast, f.moreFragments = true
  unfiltered : ∀ f ∈ fragments, f.contentFilter = false → f.contentFilterEntries = []

theorem Joinable.parts {xs ys : List Header} (hys : ys ≠ []) (h : Joinable hdr (xs ++ ys)) :
    Joinable hdr xs ∧ Joinable hdr ys := by
  have hheads := h.heads
  rw [List.dropLast_append_of_ne_nil hys] at hheads
  refine ⟨⟨fun f hf => h.core f (List.mem_append_left ys hf), fun f hf => ?_,
    fun f hf => h.unfiltered f (List.mem_append_left ys hf)⟩,
    ⟨fun f hf => h.core f (List.mem_append_right xs hf), fun f hf => ?_,
      fun f hf => h.unfiltered f (List.mem_append_right xs hf)⟩⟩
  · exact hheads f (List.mem_append_left _ (List.dropLast_subset _ hf))
  · exact hheads f (List.mem_append_right _ hf)

theorem Joinable.single {f : Header} (h : Joinable hdr [f]) : Fragments f [f] where
  core := by simp
  heads := by simp
  last := by simp
  messageLength := by simp
  contentFilter := by simp
  entries := by simp
  unfiltered := h.unfiltered

theorem join_fragments {xs ys : List Header} {a b : Header} (hxs : xs ≠ []) (hys : ys ≠ [])
    (h : Joinable hdr (xs ++ ys)) (ha : Fragments a xs) (hb : Fragments b ys) :
    ∃ joined, join a b = some joined ∧ Fragments joined (xs ++ ys) := by
  have hcore : ∀ f ∈ xs ++ ys, HeaderFragmentation.core f = HeaderFragmentation.core b := by
    intro f hf
    have hlast := List.mem_append_right xs (List.getLast_mem hys)
    exact ((h.core f hf).trans (h.core _ hlast).symm).trans (hb.core _ (List.getLast_mem hys))
  have hmore : a.moreFragments = true := by
    have hhead : xs.getLast hxs ∈ (xs ++ ys).dropLast := by
      rw [List.dropLast_append_of_ne_nil hys]
      exact List.mem_append_left _ (List.getLast_mem hxs)
    exact (ha.last _ (List.getLast?_eq_some_getLast hxs)).symm.trans (h.heads _ hhead)
  have hsame : HeaderFragmentation.core a = HeaderFragmentation.core b :=
    (ha.core _ (List.getLast_mem hxs)).symm.trans
      (hcore _ (List.mem_append_left ys (List.getLast_mem hxs)))
  have hseq : ((HeaderFragmentation.core a).sequenceHigh, (HeaderFragmentation.core a).sequenceLow) =
      (b.sequenceHigh, b.sequenceLow) := by
    rw [hsame]
    rfl
  have hentries : (if a.contentFilter then a.contentFilterEntries.reverse else []).Perm
      (xs.flatMap Header.contentFilterEntries) := by
    cases hfilter : a.contentFilter with
    | true => exact (List.reverse_perm _).trans ha.entries.symm
    | false =>
      have hnone : xs.flatMap Header.contentFilterEntries = [] := by
        rw [List.flatMap_eq_nil_iff]
        intro f hf
        have hany := ha.contentFilter.trans hfilter
        exact ha.unfiltered f hf (by simpa using List.any_eq_false.mp hany f hf)
      rw [hnone]
      exact List.Perm.refl _
  refine ⟨_, join_eq hmore hseq, hcore, h.heads, ?_, ?_, ?_, ?_, h.unfiltered⟩
  · rw [List.getLast?_append_of_ne_nil _ hys]
    exact hb.last
  · rw [List.map_append, List.sum_append, ha.messageLength, hb.messageLength]
    exact BitVec.add_comm _ _
  · rw [List.any_append, ha.contentFilter, hb.contentFilter]
    exact Bool.or_comm _ _
  · rw [List.flatMap_append]
    exact List.perm_append_comm.trans (hb.entries.append hentries.symm)

theorem Fragments.combine (h : Fragments hdr fragments) (tree : Bracketing Header)
    (htree : tree.pieces = fragments) :
    ∃ joined, tree.combine join = some joined ∧ Restores hdr joined := by
  have hjoinable : Joinable hdr tree.pieces := by
    rw [htree]
    exact ⟨h.core, h.heads, h.unfiltered⟩
  obtain ⟨joined, hcombine, hjoined⟩ := @Bracketing.combine_spec Header join (Joinable hdr)
    (fun xs f => Fragments f xs) (fun _ _ hys => Joinable.parts hys) (fun _ => Joinable.single)
    (fun _ _ _ _ => join_fragments) tree hjoinable
  rw [htree] at hjoined
  exact ⟨joined, hcombine, h.restores hjoined (htree ▸ tree.pieces_ne_nil)⟩

end

section

/-- A header that `split` writes. -/
def fragment (hdr : Header) (more filter : Bool) (length : BitVec 32) (entries : List GUID) : Header :=
  { hdr with moreFragments := more, contentFilter := filter, messageLength := length
             contentFilterEntries := entries }

theorem fragment_values (hdr : Header) (more filter : Bool) (length : BitVec 32)
    (entries : List GUID) :
    payloadSizes (fragment hdr more filter length entries).values = payloadSizes hdr.values := by
  have hlifespan :
      (fragment hdr more filter length entries).lifespanDuration = hdr.lifespanDuration := rfl
  have hgroup : (fragment hdr more filter length entries).groupCoherent = hdr.groupCoherent := rfl
  rw [values_size, values_size, hlifespan, hgroup]

theorem received_fragment {hdr : Header} (ht : Trimmed host hdr) (more filter : Bool)
    (length : BitVec 32) (entries : List GUID) :
    received host (fragment hdr more filter length entries) =
      { fragment hdr more filter length (if filter then entries else []) with
        marshaledSize := wireSize (fragment hdr more filter length entries) } :=
  received_of_trimmed host ⟨ht.lifespan, ht.group⟩

theorem fragments_pair {hdr : Header} (ht : Trimmed host hdr) {filter filter' : Bool}
    {length length' : BitVec 32} {entries entries' : List GUID}
    (hfilter : (filter || filter') = hdr.contentFilter)
    (hlength : length + length' = hdr.messageLength)
    (hentries : ((if filter then entries else []) ++ if filter' then entries' else []).Perm
      hdr.contentFilterEntries) :
    Fragments { hdr with moreFragments := false }
      [received host (fragment hdr true filter length entries),
        received host (fragment hdr false filter' length' entries')] := by
  rw [received_fragment host ht, received_fragment host ht]
  refine ⟨?_, ?_, ?_, ?_, ?_, ?_, ?_⟩
  · simp only [List.forall_mem_cons]
    exact ⟨rfl, rfl, by simp⟩
  · simp [fragment]
  · simp [fragment]
  · simpa [fragment] using hlength
  · simpa [fragment] using hfilter
  · simpa [fragment] using hentries
  · simp only [List.forall_mem_cons]
    refine ⟨fun hfalse => ?_, fun hfalse => ?_, by simp⟩
    · exact if_neg (by simpa [fragment] using hfalse)
    · exact if_neg (by simpa [fragment] using hfalse)

structure Cut (size : Nat) (orig : List (Block UInt8)) (hdr : Header) (payload : List UInt8)
    (head tail : List (Block UInt8)) (x y : Header) (front back : List UInt8) : Prop where
  first : Message host head x front
  second : Message host tail y back
  whole : front ++ back = payload
  remaining : back ≠ []
  fits : totalLength head ≤ size
  fragments : Fragments { hdr with moreFragments := false } [x, y]
  length : y.messageLength = BitVec.ofNat 32 back.length
  values : payloadSizes y.values = payloadSizes hdr.values
  /-- A size with room for an entry makes progress. -/
  shorter : payloadSizes hdr.values + 20 ≤ size → totalLength tail < totalLength orig

variable {host} (alloc : Allocator)
variable {chain blocks : List (Block UInt8)} {hdr : Header} {payload : List UInt8} {size : Nat}

theorem splitEntries_cut (hm : Message host chain hdr payload) (hblocks : contents blocks = payload)
    (hpayload : payload ≠ []) (hlength : hdr.messageLength = BitVec.ofNat 32 payload.length)
    (hsize : payloadSizes hdr.values + 4 ≤ size) (hsmall : size < wireSize hdr) :
    ∃ head tail, splitEntries host alloc hdr blocks size = .ok (head, tail) ∧
      ∃ x y front back, Cut host size chain hdr payload head tail x y front back := by
  have htotal := hm.totalLength
  have hcount := hm.count
  have hfilter : hdr.contentFilter = true := by
    cases hfilter : hdr.contentFilter with
    | true => rfl
    | false =>
      simp only [wireSize, hfilter, Bool.false_eq_true, if_false] at hsmall
      omega
  have hwire : wireSize hdr =
      payloadSizes hdr.values + (4 + 16 * hdr.contentFilterEntries.length) := by
    simp only [wireSize, hfilter, if_true, guidSeqSize]
  -- The entries that the head has room for are the last ones.
  obtain ⟨n, hn⟩ : ∃ n, n = (size - payloadSizes hdr.values - 4) / 16 := ⟨_, rfl⟩
  have hfew : n < hdr.contentFilterEntries.length := by omega
  obtain ⟨keep, move, hentries, hmove⟩ : ∃ keep move : List GUID,
      hdr.contentFilterEntries = keep ++ move ∧ move.length = n := by
    refine ⟨_, _, (List.take_append_drop (hdr.contentFilterEntries.length - n) _).symm, ?_⟩
    rw [List.length_drop]
    omega
  rw [hentries, List.length_append, hmove] at hcount hfew hwire
  let x := fragment hdr true hdr.contentFilter 0 move.reverse
  let y := fragment hdr false (decide (keep.length > 0)) (BitVec.ofNat 32 (totalLength blocks)) keep
  have hkeep : decide (keep.length > 0) = true := decide_eq_true (by omega)
  obtain ⟨mb, hmb, hitems⟩ := headerBlock_ok host alloc 0 x
  obtain ⟨optHdr, hopt, hoptItems⟩ := entriesBlock_ok host alloc 1 x move.reverse hitems
  obtain ⟨tail, htail, htailBytes, htailFirst⟩ := withHeader_ok host alloc 2 y blocks
  have hmbLen : mb.items.length = payloadSizes hdr.values := by
    rw [hitems, payloads_length, fragment_values]
  have hroom : sizeSub (sizeSub size mb.items.length) 4 / 16 % 2 ^ 32 = move.length := by
    unfold sizeSub
    omega
  have hok : splitEntries host alloc hdr blocks size = .ok ([mb, optHdr], tail) := by
    have hmb' : headerBlock host alloc 0 { hdr with moreFragments := true, messageLength := 0 } =
        .ok mb := by
      rw [← hmb]
      exact (headerBlock_entries host alloc 0 _ move.reverse).symm
    simp only [y, fragment] at htail
    unfold splitEntries
    rw [hmb']
    dsimp only
    rw [hroom]
    simp only [moveToHead, hentries, moveEntries_spec, hopt, htail]
  have hx : wireSize x = payloadSizes hdr.values + (4 + 16 * n) := by
    simp only [wireSize, x, fragment_values]
    simp only [fragment, hfilter, if_true, guidSeqSize, List.length_reverse, hmove]
  have hy : wireSize y = payloadSizes hdr.values + (4 + 16 * keep.length) := by
    simp only [wireSize, y, fragment_values]
    simp only [fragment, hkeep, if_true, guidSeqSize]
  have hheadBytes : contents [mb, optHdr] = wire host x ++ [] := by
    have hflag : x.contentFilter = true := hfilter
    simp only [contents_cons, contents_nil, hitems, hoptItems, wire, wireBytes, hflag, if_true,
      List.append_nil]
    rfl
  have hm₁ := message_of_wire x (show move.reverse.length < 2 ^ 32 by rw [List.length_reverse]; omega)
    hheadBytes (leads_cons host hitems)
  have hm₂ := message_of_wire y (show keep.length < 2 ^ 32 by omega) htailBytes htailFirst
  refine ⟨_, _, hok, _, _, _, _, hm₁, hm₂, hblocks, ?_, ?_, ?_, ?_, ?_, ?_⟩
  · rw [hblocks]
    exact hpayload
  · rw [totalLength, hheadBytes, List.append_nil, wire_length, hx]
    omega
  · apply fragments_pair host hm.trimmed
    · rw [hfilter, Bool.true_or]
    · rw [hlength, totalLength, hblocks]
      exact BitVec.zero_add _
    · rw [hfilter, hkeep, hentries]
      exact List.perm_append_comm.trans ((List.reverse_perm move).append_left keep)
  · rw [received_fragment host hm.trimmed]
    rfl
  · rw [received_values, fragment_values]
  · rw [htotal, totalLength, htailBytes, List.length_append, wire_length, hy, hwire, hblocks]
    omega

theorem splitData_cut (hm : Message host chain hdr payload) (hblocks : contents blocks = payload)
    (hlength : hdr.messageLength = BitVec.ofNat 32 payload.length)
    (hfits : wireSize hdr ≤ size) (hneed : size < totalLength chain) :
    ∃ head tail, splitData host alloc hdr blocks (size - wireSize hdr) = .ok (head, tail) ∧
      ∃ x y front back, Cut host size chain hdr payload head tail x y front back := by
  have htotal := hm.totalLength
  obtain ⟨blocks₁, blocks₂, hsplit, hfront, hback, hne⟩ := @splitPayload_spec blocks
    (size - wireSize hdr) (by rw [hblocks]; omega)
  rw [hblocks] at hfront hback
  have hlen₁ : totalLength blocks₁ = size - wireSize hdr := by
    rw [totalLength, hfront, List.length_take]
    omega
  have hlen₂ : totalLength blocks₂ = payload.length - (size - wireSize hdr) := by
    rw [totalLength, hback, List.length_drop]
  let x := fragment hdr true hdr.contentFilter (BitVec.ofNat 32 (totalLength blocks₁))
    hdr.contentFilterEntries
  let y := fragment hdr false false (BitVec.ofNat 32 (totalLength blocks₂)) hdr.contentFilterEntries
  obtain ⟨head, hhead, hheadBytes, hheadFirst⟩ := withHeader_ok host alloc 0 x blocks₁
  obtain ⟨tail, htail, htailBytes, htailFirst⟩ := withHeader_ok host alloc 2 y blocks₂
  have hok : splitData host alloc hdr blocks (size - wireSize hdr) = .ok (head, tail) := by
    simp only [x, y, fragment] at hhead htail
    simp only [splitData, hsplit, hhead, if_neg hne, htail]
  have hm₁ := message_of_wire x hm.count hheadBytes hheadFirst
  have hm₂ := message_of_wire y hm.count htailBytes htailFirst
  have hx : wireSize x = wireSize hdr := by
    unfold wireSize
    rw [fragment_values]
    rfl
  have hy : wireSize y = payloadSizes hdr.values := by
    unfold wireSize
    rw [fragment_values]
    exact Nat.add_zero _
  refine ⟨head, tail, hok, _, _, _, _, hm₁, hm₂, ?_, ?_, ?_, ?_, ?_, ?_, ?_⟩
  · rw [hfront, hback, List.take_append_drop]
  · intro hnil
    rw [totalLength, hnil, List.length_nil] at hlen₂
    omega
  · rw [totalLength, hheadBytes, List.length_append, wire_length, hx]
    show wireSize hdr + totalLength blocks₁ ≤ size
    omega
  · apply fragments_pair host hm.trimmed
    · exact Bool.or_false _
    · rw [hlength, hlen₁, hlen₂, ← BitVec.ofNat_add]
      exact congrArg (BitVec.ofNat 32) (by omega)
    · cases hfilter : hdr.contentFilter with
      | true => simp
      | false => simp [hm.entries hfilter]
  · rfl
  · rw [received_values, fragment_values]
  · intro hroom
    rw [htotal, totalLength, htailBytes, List.length_append, wire_length, hy]
    show payloadSizes hdr.values + totalLength blocks₂ < _
    by_cases hgrow : payloadSizes hdr.values < wireSize hdr
    · omega
    · omega

theorem split_cut (hm : Message host chain hdr payload) (hpayload : payload ≠ [])
    (hlength : hdr.messageLength = BitVec.ofNat 32 payload.length)
    (hsize : payloadSizes hdr.values + 4 ≤ size) (hneed : size < totalLength chain) :
    ∃ head tail, split host alloc chain size = .ok (head, tail) ∧
      ∃ x y front back, Cut host size chain hdr payload head tail x y front back := by
  obtain ⟨r, hinit, -, hrest⟩ := hm.carries
  obtain ⟨blocks, hfind, hblocks⟩ := findPayload_spec (show contents r.current ≠ [] by rwa [hrest])
  rw [hrest] at hblocks
  have htotal := hm.totalLength
  have hdrLen : totalLength chain - totalLength r.current = wireSize hdr := by
    rw [htotal, totalLength, hrest]
    omega
  obtain ⟨first, rest, rfl⟩ : ∃ first rest, chain = first :: rest := by
    apply List.exists_cons_of_ne_nil
    rintro rfl
    exact Nat.not_lt_zero _ hneed
  have hfirst : ¬first.items.length > wireSize hdr := Nat.not_lt.mpr (hm.first first rfl)
  have hsplit : split host alloc (first :: rest) size =
      if size < wireSize hdr then splitEntries host alloc hdr blocks size
      else splitData host alloc hdr blocks (size - wireSize hdr) := by
    simp only [split, hinit, hdrLen, hfind, if_neg hfirst]
  rw [hsplit]
  by_cases hsmall : size < wireSize hdr
  · rw [if_pos hsmall]
    exact splitEntries_cut alloc hm hblocks hpayload hlength hsize hsmall
  · rw [if_neg hsmall]
    exact splitData_cut alloc hm hblocks hlength (Nat.not_lt.mp hsmall) hneed

theorem Fragments.replaceLast {x y : Header} {ys : List Header} (h : Fragments hdr [x, y])
    (h' : Fragments y ys) (hne : ys ≠ []) : Fragments hdr (x :: ys) := by
  have hcore : ∀ f ∈ ys, HeaderFragmentation.core f = HeaderFragmentation.core hdr :=
    fun f hf => (h'.core f hf).trans (h.core y (by simp))
  have hx : x.moreFragments = true := h.heads x (by simp)
  have hlast := h.last y (by simp)
  have hsum := h.messageLength
  have hany := h.contentFilter
  have hperm := h.entries
  simp only [List.any_cons, List.any_nil, Bool.or_false] at hany
  simp only [List.flatMap_cons, List.flatMap_nil, List.append_nil] at hperm
  refine ⟨?_, ?_, ?_, ?_, ?_, ?_, ?_⟩
  · exact List.forall_mem_cons.mpr ⟨h.core x (by simp), hcore⟩
  · rw [List.dropLast_cons_of_ne_nil hne]
    exact List.forall_mem_cons.mpr ⟨hx, h'.heads⟩
  · rw [List.getLast?_cons_of_ne_nil hne]
    exact fun f hf => (h'.last f hf).trans hlast
  · rw [List.map_cons, List.sum_cons, h'.messageLength, ← hsum]
    exact congrArg (x.messageLength + ·) (BitVec.add_zero _).symm
  · rw [List.any_cons, h'.contentFilter, hany]
  · exact (h'.entries.append_left _).trans hperm
  · exact List.forall_mem_cons.mpr ⟨h.unfiltered x (by simp), h'.unfiltered⟩

theorem Message.fragments (hm : Message host chain hdr payload) : Fragments hdr [hdr] where
  core := by simp
  heads := by simp
  last := by simp
  messageLength := by simp
  contentFilter := by simp
  entries := by simp
  unfiltered := by simpa using hm.entries

variable (host) in
/-- Chains that fit, with what `init` makes of each of them. -/
def Pieces (size : Nat) (pieces : List (List (Block UInt8))) (messages : List (Header × List UInt8)) :
    Prop :=
  List.Forall₂ (fun piece m => Carries host piece m.1 m.2 ∧ totalLength piece ≤ size) pieces messages

theorem splitAll_pieces {rounds : Nat} (hm : Message host chain hdr payload) (hpayload : payload ≠ [])
    (hlength : hdr.messageLength = BitVec.ofNat 32 payload.length)
    (hsize : payloadSizes hdr.values + 20 ≤ size) (hrounds : totalLength chain ≤ rounds) :
    ∃ pieces messages, splitAll host alloc size rounds chain = .ok pieces ∧
      Pieces host size pieces messages ∧ messages.flatMap Prod.snd = payload ∧
      Fragments (if totalLength chain ≤ size then hdr else { hdr with moreFragments := false })
        (messages.map Prod.fst) := by
  induction rounds generalizing chain hdr payload with
  | zero =>
    have hfits : totalLength chain ≤ size := by omega
    refine ⟨[chain], [(hdr, payload)], rfl, .cons ⟨hm.carries, hfits⟩ .nil, by simp, ?_⟩
    rw [if_pos hfits]
    exact hm.fragments
  | succ rounds ih =>
    by_cases hfits : totalLength chain ≤ size
    · refine ⟨[chain], [(hdr, payload)], ?_, .cons ⟨hm.carries, hfits⟩ .nil, by simp, ?_⟩
      · simp only [splitAll, if_pos hfits]
      · rw [if_pos hfits]
        exact hm.fragments
    · obtain ⟨head, tail, hsplit, x, y, front, back, hcut⟩ :=
        split_cut alloc hm hpayload hlength (by omega) (Nat.not_le.mp hfits)
      have hshorter := hcut.shorter hsize
      obtain ⟨pieces, messages, hall, hpieces, hback, hfragments⟩ := ih hcut.second hcut.remaining
        hcut.length (by rw [hcut.values]; exact hsize) (by omega)
      have hmore : y.moreFragments = false := hcut.fragments.last y (by simp)
      have hy : (if totalLength tail ≤ size then y else { y with moreFragments := false }) = y := by
        split
        · rfl
        · rw [← hmore]
      rw [hy] at hfragments
      have hne : messages.map Prod.fst ≠ [] := by
        intro hnil
        rw [List.map_eq_nil_iff.mp hnil] at hback
        exact hcut.remaining hback.symm
      refine ⟨head :: pieces, (x, front) :: messages, ?_, .cons ⟨hcut.first.carries, hcut.fits⟩ hpieces,
        ?_, ?_⟩
      · simp only [splitAll, if_neg hfits, hsplit, hall]
      · rw [List.flatMap_cons, hback]
        exact hcut.whole
      · rw [if_neg hfits]
        exact hcut.fragments.replaceLast hfragments hne

end

/-- A message that is longer than `size`, with a payload in blocks of any lengths, the first of
which are the header's. `split` yields a head that fits and a tail; what `init` makes of them has
the whole payload in order, and `join` restores the header but for the flag and the order of the
entries. With room for an entry, the tails can be split until all pieces fit, and the pieces can be
joined in any order of neighbours. -/
theorem split_round_trip (alloc : Allocator) (h : Header) (payload : List UInt8)
    (orig : List (Block UInt8)) (size : Nat) (hcount : h.contentFilterEntries.length < 2 ^ 32)
    (horig : contents orig = wire host h ++ payload) (hfirst : Leads h orig) (hpayload : payload ≠ [])
    (hlength : h.messageLength = BitVec.ofNat 32 payload.length)
    (hsize : payloadSizes h.values + 4 ≤ size) (hneed : size < totalLength orig) :
    Carries host orig (received host h) payload ∧
    (∃ head tail first second front back joined,
      split host alloc orig size = .ok (head, tail) ∧ totalLength head ≤ size ∧
      Carries host head first front ∧ Carries host tail second back ∧ front ++ back = payload ∧
      first.moreFragments = true ∧ second.moreFragments = false ∧
      join first second = some joined ∧
      Restores { received host h with moreFragments := false } joined) ∧
    (payloadSizes h.values + 20 ≤ size →
      ∃ pieces messages, splitAll host alloc size (totalLength orig) orig = .ok pieces ∧
        List.Forall₂ (fun piece m => Carries host piece m.1 m.2 ∧ totalLength piece ≤ size)
          pieces messages ∧
        messages.flatMap Prod.snd = payload ∧
        ∀ tree : Bracketing Header, tree.pieces = messages.map Prod.fst →
          ∃ joined, tree.combine join = some joined ∧
            Restores { received host h with moreFragments := false } joined) := by
  have hm := message_of_wire h hcount horig hfirst
  have hvalues : payloadSizes (received host h).values = payloadSizes h.values := by
    rw [received_values]
  have hmessageLength : (received host h).messageLength = BitVec.ofNat 32 payload.length := by
    rw [received_eq]
    exact hlength
  rw [← hvalues] at hsize ⊢
  refine ⟨hm.carries, ?_, fun hroom => ?_⟩
  · obtain ⟨head, tail, hsplit, x, y, front, back, hcut⟩ :=
      split_cut alloc hm hpayload hmessageLength hsize hneed
    obtain ⟨joined, hjoin, hrestores⟩ := hcut.fragments.combine (.both (.piece x) (.piece y)) rfl
    exact ⟨head, tail, x, y, front, back, joined, hsplit, hcut.fits, hcut.first.carries,
      hcut.second.carries, hcut.whole, hcut.fragments.heads x (by simp),
      hcut.fragments.last y (by simp), hjoin, hrestores⟩
  · obtain ⟨pieces, messages, hall, hpieces, hwhole, hfragments⟩ :=
      splitAll_pieces alloc hm hpayload hmessageLength hroom (Nat.le_refl _)
    rw [if_neg (Nat.not_le.mpr hneed)] at hfragments
    exact ⟨pieces, messages, hall, hpieces, hwhole, hfragments.combine⟩

section

deriving instance DecidableEq for Block

private def zeroed : Allocator where
  block _ size := ⟨0, List.replicate size 0⟩
  length_block _ _ := List.length_replicate

private def reader (n : BitVec 8) : GUID := ⟨Vector.replicate 12 n, Vector.replicate 3 0, 7⟩

/-- A header with two entries, of 76 bytes. -/
private def filtered (more : Bool) : Header :=
  { create .littleEndian with
    contentFilter := true, moreFragments := more, messageLength := 3
    contentFilterEntries := [reader 1, reader 2] }

private def filteredMessage (more : Bool) (payload : List UInt8) : List (Block UInt8) :=
  let swap := (filtered more).byteOrder != aceCdrByteOrder .littleEndian
  [⟨0, payloads .littleEndian swap (filtered more).values⟩,
    ⟨0, payloads .littleEndian swap (guidSeqValues (filtered more).contentFilterEntries)⟩, ⟨0, payload⟩]

private theorem filteredMessage_contents (more : Bool) (payload : List UInt8) :
    contents (filteredMessage more payload) = wire .littleEndian (filtered more) ++ payload := by
  simp [filteredMessage, wire, wireBytes, filtered]

/-- What the receiver makes of the two parts of a message. -/
private def rejoin (orig : List (Block UInt8)) (size : Nat) : Option Header :=
  match split .littleEndian zeroed orig size with
  | .error _ => none
  | .ok (head, tail) =>
    match init .littleEndian (create .littleEndian) head,
      init .littleEndian (create .littleEndian) tail with
    | .ok first, .ok second => join first.header second.header
    | _, _ => none

/-- A message of 79 bytes whose header does not fit in 60. -/
theorem split_round_trip_filtered :
    ∃ head tail first second front back joined,
      split .littleEndian zeroed (filteredMessage false [1, 2, 3]) 60 = .ok (head, tail) ∧
      totalLength head ≤ 60 ∧ Carries .littleEndian head first front ∧
      Carries .littleEndian tail second back ∧ front ++ back = [1, 2, 3] ∧
      first.moreFragments = true ∧ second.moreFragments = false ∧
      join first second = some joined ∧
      Restores { received .littleEndian (filtered false) with moreFragments := false } joined :=
  (split_round_trip .littleEndian zeroed (filtered false) [1, 2, 3] (filteredMessage false [1, 2, 3])
    60 (by decide) (filteredMessage_contents false [1, 2, 3]) (leads_cons .littleEndian rfl)
    (by decide) rfl (by decide) (by decide +kernel)).2.1

private theorem splitAll_stuck {orig head : List (Block UInt8)} {size : Nat} {alloc : Allocator}
    (h : split host alloc orig size = .ok (head, orig)) (hlong : size < totalLength orig)
    (rounds : Nat) : ∃ pieces, splitAll host alloc size rounds orig = .ok pieces ∧ orig ∈ pieces := by
  induction rounds with
  | zero => exact ⟨[orig], rfl, List.mem_singleton_self orig⟩
  | succ rounds ih =>
    obtain ⟨pieces, hall, hmem⟩ := ih
    refine ⟨head :: pieces, ?_, List.mem_cons_of_mem head hmem⟩
    simp only [splitAll, if_neg (Nat.not_le.mpr hlong), h, hall]

private theorem split_without_room : ∃ head, split .littleEndian zeroed
    (filteredMessage false [1, 2, 3]) 56 = .ok (head, filteredMessage false [1, 2, 3]) := by
  have htail : (split .littleEndian zeroed (filteredMessage false [1, 2, 3]) 56).map Prod.snd =
      .ok (filteredMessage false [1, 2, 3]) := by decide +kernel
  obtain ⟨⟨head, tail⟩, hsplit, rfl⟩ := Folds.map_eq_ok htail
  exact ⟨head, hsplit⟩

/-- `split` has no meaning when nothing is left for the tail, without a payload, and when the
header shares its only block with the payload. The flag of a fragment and the order of entries that
fit in the head are not restored, and with room for a header and one GUID only, splitting the tails
does not end. -/
theorem split_limits :
    split .littleEndian zeroed (filteredMessage false [1, 2, 3]) 79 = .error .nullBlock ∧
    split .littleEndian zeroed (filteredMessage false []) 60 = .error .nullBlock ∧
    split .littleEndian zeroed [⟨0, contents (filteredMessage false [1, 2, 3])⟩] 77 =
      .error .nullBlock ∧
    (rejoin (filteredMessage true [1, 2, 3]) 77).map Header.moreFragments = some false ∧
    (rejoin (filteredMessage false [1, 2, 3]) 77).map Header.contentFilterEntries =
      some [reader 2, reader 1] ∧
    ∀ rounds, ∃ pieces,
      splitAll .littleEndian zeroed 56 rounds (filteredMessage false [1, 2, 3]) = .ok pieces ∧
      ∃ piece ∈ pieces, 56 < totalLength piece := by
  refine ⟨by decide +kernel, by decide +kernel, by decide +kernel, by decide +kernel,
    by decide +kernel, fun rounds => ?_⟩
  have hlong : 56 < totalLength (filteredMessage false [1, 2, 3]) := by decide +kernel
  obtain ⟨head, hsplit⟩ := split_without_room
  obtain ⟨pieces, hall, hmem⟩ := splitAll_stuck .littleEndian hsplit hlong rounds
  exact ⟨pieces, hall, _, hmem, hlong⟩

end

end OpenDDS.Guarantees.HeaderFragmentation
