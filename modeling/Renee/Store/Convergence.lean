import Mathlib.Data.Finset.Sort
import Renee.Store.VectorReader
import Renee.Wire.UpdateMessagesSpec

/-!
# A client can catch up

What a client that has every update of a document would say it has: each peer that occurs, with the
highest end of its ranges.  This version can always be stated, since a document has no more peers
than a version may list; it fits a request; and a backfill with it brings nothing, while a backfill
with anything less brings something.

* `Tables.convergedVersion` builds the version from the log as the constructors of the source do.
* `select_eq_nil` and `exists_select_of_lt` say what a version selects that covers every range, and
  one that falls short for a peer.
* `document_convergeable` puts them together with the requests that are sent and the passes that are
  read.
-/

set_option autoImplicit false

namespace Renee

open ByteString Wire

/-! ## The version of a client that has everything -/

/-- The highest end of the ranges of a peer, or zero where it has none. -/
def highestEnd (ranges : List LoroRange) (peer : U64) : ℕ :=
  ((ranges.filter fun range ↦ range.peerId = peer).map LoroRange.endCounter).foldr max 0

/-- The ranges of the updates of a document. -/
def Tables.loroRanges (t : Tables) (d : DocumentId) : List LoroRange :=
  (t.metadataLog d).flatMap fun entry ↦ entry.publicLoroRanges.ranges

/-- The peers that occur in the updates of a document, in order. -/
def Tables.loroPeers (t : Tables) (d : DocumentId) : List U64 :=
  ((t.loroRanges d).map LoroRange.peerId).toFinset.sort

/-- Each peer with its highest end, through the constructors of the source. -/
def Tables.convergedVersion (t : Tables) (d : DocumentId) :
    Except LoroMetadataError LoroOplogVersion := do
  let entries ← (t.loroPeers d).mapM fun peer ↦
    LoroOplogVersionEntry.new peer (highestEnd (t.loroRanges d) peer)
  LoroOplogVersion.new entries

/-! ## Versions that say less -/

namespace LoroOplogVersion

/-- A version with a peer removed. -/
def without (v : LoroOplogVersion) (peer : U64) : LoroOplogVersion where
  entries := v.entries.filter fun e ↦ e.peerId ≠ peer
  length_le := (List.length_filter_le ..).trans v.length_le
  sorted := v.sorted.filter _

/-- An entry with its counter lowered; nothing is left of one that is lowered to zero. -/
def lowerEntry (peer : U64) (n : ℕ) (e : LoroOplogVersionEntry) : Option LoroOplogVersionEntry :=
  if e.peerId ≠ peer then some e
  else if h : 0 < e.endCounter - n then
    some ⟨e.peerId, e.endCounter - n, h, (Nat.sub_le ..).trans e.end_le⟩
  else none

theorem peerId_lowerEntry {peer : U64} {n : ℕ} {e e' : LoroOplogVersionEntry}
    (h : e' ∈ lowerEntry peer n e) : e'.peerId = e.peerId := by
  rw [Option.mem_def, lowerEntry] at h
  split at h
  · rw [Option.some_inj.mp h]
  · split at h
    · rw [← Option.some_inj.mp h]
    · exact absurd h (by simp)

/-- A version with the counter of a peer lowered by some amount. -/
def lowered (v : LoroOplogVersion) (peer : U64) (n : ℕ) : LoroOplogVersion where
  entries := v.entries.filterMap (lowerEntry peer n)
  length_le := (List.length_filterMap_le ..).trans v.length_le
  sorted := v.sorted.filterMap _ fun e e' hlt a ha b hb ↦ by
    rw [peerId_lowerEntry ha, peerId_lowerEntry hb]
    exact hlt

variable {v : LoroOplogVersion} {e : LoroOplogVersionEntry}

theorem endCounterFor_without (v : LoroOplogVersion) (peer : U64) :
    (v.without peer).endCounterFor peer = 0 :=
  endCounterFor_eq_zero fun _ h ↦ of_decide_eq_true (List.mem_filter.mp h).2

theorem endCounterFor_lowered (h : e ∈ v.entries) (n : ℕ) :
    (v.lowered e.peerId n).endCounterFor e.peerId = e.endCounter - n := by
  by_cases hpos : 0 < e.endCounter - n
  · have hentry : (⟨e.peerId, e.endCounter - n, hpos, (Nat.sub_le ..).trans e.end_le⟩ :
        LoroOplogVersionEntry) ∈ (v.lowered e.peerId n).entries := by
      refine List.mem_filterMap.mpr ⟨e, h, ?_⟩
      rw [lowerEntry, if_neg (by simp), dif_pos hpos]
    exact endCounterFor_of_mem hentry
  · have hzero : e.endCounter - n = 0 := by omega
    rw [hzero]
    refine endCounterFor_eq_zero fun e' he' heq ↦ ?_
    obtain ⟨other, hother, hlower⟩ := List.mem_filterMap.mp he'
    -- an entry of the peer has the counter that was lowered to nothing
    have hpeer := (peerId_lowerEntry (Option.mem_def.mpr hlower)).symm.trans heq
    have hcounter : other.endCounter = e.endCounter := by
      rw [← endCounterFor_of_mem hother, hpeer, endCounterFor_of_mem h]
    rw [lowerEntry, if_neg (not_not.mpr hpeer), dif_neg (by omega)] at hlower
    exact absurd hlower (by simp)

end LoroOplogVersion

/-! ## What is selected -/

section Selection

variable {ranges : List LoroRange} {range : LoroRange} {peer : U64}

theorem le_highestEnd (h : range ∈ ranges) : range.endCounter ≤ highestEnd ranges range.peerId := by
  have hmem : range.endCounter ∈
      ((ranges.filter fun r ↦ r.peerId = range.peerId).map LoroRange.endCounter) :=
    List.mem_map_of_mem (List.mem_filter.mpr ⟨h, decide_eq_true rfl⟩)
  rw [highestEnd]
  generalize (ranges.filter fun r ↦ r.peerId = range.peerId).map LoroRange.endCounter = ends at hmem
  induction ends with
  | nil => exact absurd hmem List.not_mem_nil
  | cons n ends ih =>
    rw [List.foldr_cons]
    rcases List.mem_cons.mp hmem with rfl | hrest
    · exact le_max_left _ _
    · exact (ih hrest).trans (le_max_right _ _)

/-- A highest end above zero is the end of a range. -/
theorem exists_of_highestEnd_pos (h : 0 < highestEnd ranges peer) :
    ∃ range ∈ ranges, range.peerId = peer ∧ range.endCounter = highestEnd ranges peer := by
  have hmem : ∀ ends : List ℕ, 0 < ends.foldr max 0 → ends.foldr max 0 ∈ ends := by
    intro ends
    induction ends with
    | nil => exact fun h ↦ absurd h (lt_irrefl 0)
    | cons n ends ih =>
      intro hpos
      rw [List.foldr_cons] at hpos ⊢
      rcases le_total n (ends.foldr max 0) with hle | hle
      · rw [max_eq_right hle] at hpos ⊢
        exact List.mem_cons_of_mem _ (ih hpos)
      · rw [max_eq_left hle]
        exact List.mem_cons_self ..
  obtain ⟨range, hrange, hend⟩ := List.mem_map.mp (hmem _ h)
  obtain ⟨hin, hpeer⟩ := List.mem_filter.mp hrange
  exact ⟨range, hin, of_decide_eq_true hpeer, hend⟩

theorem highestEnd_le (ranges : List LoroRange) (peer : U64) :
    highestEnd ranges peer ≤ maxLoroCounter := by
  rcases Nat.eq_zero_or_pos (highestEnd ranges peer) with hzero | hpos
  · omega
  · obtain ⟨range, -, -, hend⟩ := exists_of_highestEnd_pos hpos
    exact hend ▸ range.counters_le.2

variable {v : LoroOplogVersion} {updates : List UpdateMetadata}

/-- **A version that covers every range selects nothing.** -/
theorem select_eq_nil (h : ∀ entry ∈ updates, ∀ range ∈ entry.publicLoroRanges.ranges,
    range.endCounter ≤ v.endCounterFor range.peerId) : v.select updates = [] := by
  refine List.filter_eq_nil_iff.mpr fun entry hentry hselects ↦ ?_
  obtain ⟨range, hrange, hlt⟩ := List.any_eq_true.mp hselects
  exact absurd (of_decide_eq_true hlt) (not_lt.mpr (h entry hentry range hrange))

/-- **A version that does not cover a range selects the update it belongs to.** -/
theorem mem_select_of_lt {entry : UpdateMetadata} (hentry : entry ∈ updates)
    (hrange : range ∈ entry.publicLoroRanges.ranges)
    (hlt : v.endCounterFor range.peerId < range.endCounter) : entry ∈ v.select updates :=
  List.mem_filter.mpr ⟨hentry, List.any_eq_true.mpr ⟨range, hrange, decide_eq_true hlt⟩⟩

end Selection

/-! ## It can be stated -/

section Stated

variable {t : Tables} {d : DocumentId}

theorem mem_loroPeers {peer : U64} :
    peer ∈ t.loroPeers d ↔ ∃ range ∈ t.loroRanges d, range.peerId = peer := by
  rw [Tables.loroPeers, Finset.mem_sort, List.mem_toFinset, List.mem_map]

/-- The peers of the updates are those the store has counted. -/
theorem mem_loroPeers_iff_find? (hw : UpdatesWellFormed t) {peer : U64} :
    peer ∈ t.loroPeers d ↔ (t.documentLoroPeers.find? (d, peer)).isSome = true := by
  rw [mem_loroPeers, hw.peers]
  constructor
  · rintro ⟨range, hrange, rfl⟩
    obtain ⟨entry, hentry, hin⟩ := List.mem_flatMap.mp hrange
    obtain ⟨row, hrow, hmetadata⟩ := List.mem_filterMap.mp hentry
    obtain ⟨update, hupdate, rfl⟩ := Option.map_eq_some_iff.mp hmetadata
    refine ⟨row, hrow, ?_⟩
    rw [UpdateRow.peers, hupdate]
    exact List.mem_map_of_mem hin
  · rintro ⟨row, hrow, hpeer⟩
    obtain ⟨update, hupdate, -⟩ := hw.update_of_mem_log hrow
    have hsome := UpdateRow.update?_eq_some_iff.mpr hupdate
    rw [UpdateRow.peers, hsome] at hpeer
    obtain ⟨range, hrange, rfl⟩ := List.mem_map.mp hpeer
    refine ⟨range, List.mem_flatMap.mpr ⟨update.metadata, ?_, hrange⟩, rfl⟩
    exact List.mem_filterMap.mpr ⟨row, hrow, by rw [UpdateRow.metadata?, hsome]; rfl⟩

/-- **There are no more peers than a version may list.** -/
theorem length_loroPeers_le (hw : UpdatesWellFormed t) (d : DocumentId) :
    (t.loroPeers d).length ≤ maxLoroPeers := by
  refine le_trans ?_ (hw.peerCount_le d)
  have hnodup : ((t.loroPeers d).map (DocumentLoroPeerRow.mk d)).Nodup :=
    (Finset.sort_nodup ..).map fun _ _ h ↦ (DocumentLoroPeerRow.mk.inj h).2
  have hsub : (t.loroPeers d).map (DocumentLoroPeerRow.mk d) ⊆
      t.documentLoroPeers.rows.filter fun row ↦ row.documentId = d := by
    intro row hrow
    obtain ⟨peer, hpeer, rfl⟩ := List.mem_map.mp hrow
    obtain ⟨found, hfound⟩ := Option.isSome_iff_exists.mp ((mem_loroPeers_iff_find? hw).mp hpeer)
    obtain ⟨hmem, hkey⟩ := t.documentLoroPeers.find?_eq_some_iff.mp hfound
    obtain rfl : found = ⟨d, peer⟩ :=
      DocumentLoroPeerRow.ext (Prod.mk.inj hkey).1 (Prod.mk.inj hkey).2
    exact List.mem_filter.mpr ⟨hmem, decide_eq_true rfl⟩
  have hle := (hnodup.subperm hsub).length_le
  rwa [List.length_map, ← List.countP_eq_length_filter] at hle

theorem highestEnd_pos {peer : U64} (h : peer ∈ t.loroPeers d) :
    0 < highestEnd (t.loroRanges d) peer := by
  obtain ⟨range, hrange, rfl⟩ := mem_loroPeers.mp h
  exact lt_of_lt_of_le (Nat.lt_of_le_of_lt (Nat.zero_le _) range.start_lt_end)
    (le_highestEnd hrange)

/-- Entries that are within bounds are constructed one after another. -/
theorem mapM_new_eq_ok {f : U64 → ℕ} {peers : List U64}
    (h : ∀ peer ∈ peers, 0 < f peer ∧ f peer ≤ maxLoroCounter) :
    ∃ entries, (peers.mapM fun peer ↦ LoroOplogVersionEntry.new peer (f peer)) = .ok entries ∧
      entries.map LoroOplogVersionEntry.peerId = peers ∧
      ∀ e ∈ entries, e.endCounter = f e.peerId := by
  induction peers with
  | nil => exact ⟨[], rfl, rfl, fun _ h ↦ absurd h List.not_mem_nil⟩
  | cons peer peers ih =>
    obtain ⟨hpos, hle⟩ := h peer (List.mem_cons_self ..)
    obtain ⟨entries, hentries, hpeers, hcounters⟩ := ih fun p hp ↦ h p (List.mem_cons_of_mem _ hp)
    have hnew : LoroOplogVersionEntry.new peer (f peer) = .ok ⟨peer, f peer, hpos, hle⟩ :=
      LoroOplogVersionEntry.new_eq_ok_iff.mpr ⟨rfl, rfl⟩
    refine ⟨⟨peer, f peer, hpos, hle⟩ :: entries, ?_, by rw [List.map_cons, hpeers], ?_⟩
    · rw [List.mapM_cons, hnew, hentries]
      rfl
    · intro e he
      rcases List.mem_cons.mp he with rfl | he
      · rfl
      · exact hcounters e he

/-- **The version of a client that has everything can be constructed**, and covers what it says. -/
theorem convergedVersion_eq_ok (hw : UpdatesWellFormed t) (d : DocumentId) :
    ∃ v, t.convergedVersion d = .ok v ∧
      v.entries.map LoroOplogVersionEntry.peerId = t.loroPeers d ∧
      ∀ e ∈ v.entries, e.endCounter = highestEnd (t.loroRanges d) e.peerId := by
  have hbounds : ∀ peer ∈ t.loroPeers d, 0 < highestEnd (t.loroRanges d) peer ∧
      highestEnd (t.loroRanges d) peer ≤ maxLoroCounter :=
    fun peer hpeer ↦ ⟨highestEnd_pos hpeer, highestEnd_le _ _⟩
  obtain ⟨entries, hentries, hpeers, hcounters⟩ := mapM_new_eq_ok hbounds
  have hsorted : entries.Pairwise fun e e' ↦ e.peerId < e'.peerId := by
    rw [← List.pairwise_map (f := LoroOplogVersionEntry.peerId), hpeers]
    exact (Finset.sortedLT_sort _).pairwise
  have hlength : entries.length ≤ maxLoroPeers := by
    rw [← List.length_map (f := LoroOplogVersionEntry.peerId), hpeers]
    exact length_loroPeers_le hw d
  refine ⟨⟨entries, hlength, hsorted⟩, ?_, hpeers, hcounters⟩
  rw [Tables.convergedVersion, hentries]
  exact LoroOplogVersion.new_eq_ok_iff.mpr rfl

/-- A version that covers every peer to its highest end selects nothing. -/
theorem select_converged {v : LoroOplogVersion}
    (hpeers : v.entries.map LoroOplogVersionEntry.peerId = t.loroPeers d)
    (hcounters : ∀ e ∈ v.entries, e.endCounter = highestEnd (t.loroRanges d) e.peerId) :
    v.select (t.metadataLog d) = [] := by
  refine select_eq_nil fun entry hentry range hrange ↦ ?_
  have hin : range ∈ t.loroRanges d := List.mem_flatMap.mpr ⟨entry, hentry, hrange⟩
  obtain ⟨e, he, hpeer⟩ : ∃ e ∈ v.entries, e.peerId = range.peerId := by
    rw [← List.mem_map, hpeers]
    exact mem_loroPeers.mpr ⟨range, hin, rfl⟩
  rw [← hpeer, LoroOplogVersion.endCounterFor_of_mem he, hcounters e he, hpeer]
  exact le_highestEnd hin

/-- A version that falls short for a peer selects an update. -/
theorem exists_select_of_lt {v : LoroOplogVersion} (peer : U64)
    (h : v.endCounterFor peer < highestEnd (t.loroRanges d) peer) :
    ∃ entry ∈ v.select (t.metadataLog d), entry ∈ t.metadataLog d := by
  obtain ⟨range, hin, rfl, hend⟩ := exists_of_highestEnd_pos (Nat.lt_of_le_of_lt (Nat.zero_le _) h)
  obtain ⟨entry, hentry, hrange⟩ := List.mem_flatMap.mp hin
  exact ⟨entry, mem_select_of_lt hentry hrange (hend ▸ h), hentry⟩

end Stated

/-! ## It is sent, and it is enough -/

open DurableUpdateStore in
/-- **Every document stays convergeable.**  In every reachable store, the version that gives each
peer of a document's updates its highest end

* can be constructed, and is read back from its encoding;
* fits a vector-backfill request within one frame, whatever authority the request presents, and the
  request comes back out of the frame;
* brings no update in a complete backfill pass, whatever happens meanwhile;
* and with any of its peers removed, or the counter of one lowered by any amount, brings at least
  one update that had been accepted when the pass started. -/
theorem document_convergeable (sha256 : List UInt8 → Bytes verifierLength) (before : List Request)
    (d : DocumentId) :
    let t := (initial.run sha256 before).tables
    ∃ v, t.convergedVersion d = .ok v ∧
      decodeLoroOplogVersion (encodeLoroOplogVersion v) = .ok v ∧
      (∀ (correlationId : Bytes 16) (authority : CapabilityAuthority),
        let request : Wire.VectorBackfillRequest := ⟨authority, d, v, .origin⟩
        ∃ payload body, encodeVectorBackfillRequest request = .ok payload ∧
          encodeBody ⟨correlationId, vectorBackfill, payload, version⟩ = .ok body ∧
          body.length ≤ maxBodyLength ∧
          decodeBody body = .ok ⟨correlationId, vectorBackfill, payload, version⟩ ∧
          decodeVectorBackfillRequest payload = .ok request) ∧
      ∀ (r : VectorBackfillRequest) (m : Moment vectorContinuationLength)
        (response : AuthorizedVectorBackfillPage), r.documentId = d → r.start = .origin →
        ((initial.run sha256 before).vectorBackfillAuthorized sha256 r m).1 =
          .ok (.authorized response) →
        let s := (initial.run sha256 before).step sha256 (.vectorBackfill r m)
        ∀ after, s.BackfillLeavesAll sha256 r (.start m.now response) after →
          let reader := s.backfill sha256 r (.start m.now response) after
          reader.token = none →
          (r.oplogVersion = v → reader.read = []) ∧
          ∀ e ∈ v.entries,
            (r.oplogVersion = v.without e.peerId ∨
              ∃ n, 0 < n ∧ r.oplogVersion = v.lowered e.peerId n) →
            ∃ entry ∈ reader.read, entry ∈ t.metadataLog d := by
  intro t
  have hw : WellFormed t := wellFormed_runRequests wellFormed_initial before
  obtain ⟨v, hv, hpeers, hcounters⟩ := convergedVersion_eq_ok hw.log d
  refine ⟨v, hv, decodeLoroOplogVersion_encode v, fun correlationId authority ↦ ?_, ?_⟩
  · intro request
    have hencode : encodeVectorBackfillRequest request =
        .ok (vectorBackfillRequestBytes request 0 none) :=
      encodeVectorBackfillRequest_eq_ok_iff.mpr ⟨fun _ h ↦ (by cases h), rfl⟩
    have hlength : (vectorBackfillRequestBytes request 0 none).length =
        83 + 12 * v.entries.length := length_vectorBackfillRequestBytes request 0 none
    have hle := v.length_le
    have hmax : maxApplicationPayloadLength = 4072 := rfl
    simp only [maxLoroPeers] at hle
    have hbody : encodeBody ⟨correlationId, vectorBackfill,
        vectorBackfillRequestBytes request 0 none, version⟩ = .ok _ :=
      encodeBody_eq_ok (by simp only [hlength]; omega)
    exact ⟨_, _, hencode, hbody, (decodeBody_encodeBody hbody).1, (decodeBody_encodeBody hbody).2,
      decodeVectorBackfillRequest_of_encode hencode⟩
  · intro r m response hd horigin hreply s after hleaves reader hnone
    subst hd
    have hstart := Backfilling.start hw (passesWellFormed_run sha256 before) horigin hreply
    have h : Backfilling (s.run sha256 after) r reader (t.metadataLog r.documentId).length := by
      rw [hw.log.length_metadataLog]
      exact hstart.backfill hleaves
    have hprefixed : t.metadataLog r.documentId <+:
        (s.run sha256 after).tables.metadataLog r.documentId := by
      exact metadataLog_prefix ((log_step hw _ _).trans (log_run (wellFormed_step hw _) after _))
    have hread := (h.read_eq hprefixed).2 hnone
    refine ⟨fun hversion ↦ ?_, fun e he hless ↦ ?_⟩
    · rw [hread, hversion]
      exact select_converged hpeers hcounters
    · rw [hread]
      refine exists_select_of_lt e.peerId ?_
      have hpos := e.end_pos
      rw [← hcounters e he]
      rcases hless with hless | ⟨n, hn, hless⟩
      · rw [hless, LoroOplogVersion.endCounterFor_without]
        exact hpos
      · rw [hless, LoroOplogVersion.endCounterFor_lowered he]
        omega

open DurableUpdateStore in
/-- The child has nothing of the one update, and so is sent it. -/
theorem document_convergeable_sample :
    ∃ v, (initial.run Sample.sha256
      (Sample.opening ++ [.accept Sample.accept])).tables.convergedVersion
        Sample.document = .ok v ∧
      v.without 1 = Sample.backfilling.oplogVersion ∧
      Sample.update.metadata ∈ (VectorReader.start 0 Sample.backfilled).read := by
  obtain ⟨v, hv, -, -, h⟩ := document_convergeable Sample.sha256
    (Sample.opening ++ [.accept Sample.accept]) Sample.document
  have hentries : ((initial.run Sample.sha256
      (Sample.opening ++ [.accept Sample.accept])).tables.convergedVersion Sample.document).map
        LoroOplogVersion.entries = .ok [⟨1, 1, by decide, by decide⟩] := by decide +kernel
  rw [show Tables.convergedVersion _ Sample.document = _ from hv] at hentries
  have hone := Except.ok.inj hentries
  have hwithout : v.without 1 = Sample.backfilling.oplogVersion := by
    refine LoroOplogVersion.ext ?_
    change v.entries.filter (fun e ↦ e.peerId ≠ 1) = _
    rw [hone]
    rfl
  obtain ⟨entry, hread, -⟩ := (h Sample.backfilling Sample.moment Sample.backfilled rfl rfl
    (by decide +kernel) [] trivial rfl).2 ⟨1, 1, by decide, by decide⟩
    (by rw [hone]; exact List.mem_singleton_self _) (Or.inl hwithout.symm)
  refine ⟨v, hv, hwithout, ?_⟩
  obtain rfl := List.mem_singleton.mp (show entry ∈ [Sample.update.metadata] from hread)
  exact hread

end Renee
