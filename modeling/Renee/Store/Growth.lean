import Renee.Store.Ending
import Renee.Store.PageSpec

/-!
# The log only grows

An accepted update goes to the end of the log of its document, and nothing else touches the log.  So
a window that ends within the log holds the same updates ever after (`window_step`), and so does any
prefix of the metadata; no update is in it twice (`nodup_metadataLog`).
-/

set_option autoImplicit false

namespace Renee

open ByteString Relational

variable {sha256 : List UInt8 → Bytes verifierLength} {t t' : Tables} {d : DocumentId}

theorem log_congr (h : t'.updates = t.updates) (d : DocumentId) : t'.log d = t.log d := by
  rw [Tables.log, h]
  rfl

/-- **An effect appends to the log.** -/
theorem Effect.log_prefix {m : Mutation} (heffect : Effect sha256 t t' m) (hw : WellFormed t)
    (d : DocumentId) : t.log d <+: t'.log d := by
  have hsame : t'.updates = t.updates → t.log d <+: t'.log d := fun h ↦ by
    rw [log_congr h]
  cases heffect with
  | created h => exact hsame h.updates
  | granted h => exact hsame h.updates
  | revoked h => exact hsame h.updates
  | accepted h _ _ =>
    rw [h.log_eq hw.log]
    exact List.prefix_append _ _
  | retired h => exact hsame (by rw [h]; rfl)
  | disabled h => exact hsame (by rw [h]; rfl)
  | provisioned h =>
    obtain ⟨createAuthorities, rfl⟩ := provisionCreateAuthority_eq_ok h
    exact hsame rfl

theorem metadataLog_prefix (h : t.log d <+: t'.log d) : t.metadataLog d <+: t'.metadataLog d :=
  List.IsPrefix.filterMap _ h

/-- What has been accepted up to a position does not change. -/
theorem take_metadataLog (hw : UpdatesWellFormed t) (h : t.log d <+: t'.log d) {n : ℕ}
    (hn : n ≤ (t.log d).length) : (t'.metadataLog d).take n = (t.metadataLog d).take n := by
  obtain ⟨added, hadded⟩ := metadataLog_prefix h
  rw [← hadded, List.take_append_of_le_length (by rw [hw.length_metadataLog]; exact hn)]

/-- **A window within the log stays as it is.** -/
theorem window_of_isPrefix (hw : UpdatesWellFormed t) (hw' : UpdatesWellFormed t')
    (h : t.log d <+: t'.log d) (lower : AcceptanceSequence) {upper : AcceptanceSequence}
    (hupper : upper.get ≤ (t.log d).length) : t'.window d lower upper = t.window d lower upper := by
  rw [hw'.window_eq, hw.window_eq, take_metadataLog hw h hupper]

theorem nodup_updateIds (t : Tables) (d : DocumentId) :
    ((t.log d).map UpdateRow.updateId).Nodup := by
  refine List.Nodup.map_on ?_ ((t.log_perm d).nodup_iff.mpr (t.updates.nodup_rows.filter _))
  intro row hrow row' hrow' heq
  obtain ⟨hmem, hd⟩ := Tables.mem_log.mp hrow
  obtain ⟨hmem', hd'⟩ := Tables.mem_log.mp hrow'
  exact t.updates.eq_of_key_eq hmem hmem' (Prod.ext (hd.trans hd'.symm) heq)

/-- The metadata are of the updates in the log. -/
theorem map_updateId_metadataLog (hw : UpdatesWellFormed t) (d : DocumentId) :
    (t.metadataLog d).map UpdateMetadata.updateId = (t.log d).map UpdateRow.updateId := by
  have hids : ∀ row ∈ t.log d, row.metadata?.map UpdateMetadata.updateId = some row.updateId := by
    intro row hrow
    obtain ⟨update, hupdate, -, hu⟩ := hw.update_of_mem_log hrow
    rw [UpdateRow.metadata?, UpdateRow.update?_eq_some_iff.mpr hupdate, ← hu]
    rfl
  rw [Tables.metadataLog, List.map_filterMap, List.filterMap_congr hids]
  change List.filterMap (some ∘ UpdateRow.updateId) _ = _
  rw [List.filterMap_eq_map]

/-- **No update is in the log twice.** -/
theorem nodup_metadataLog (hw : UpdatesWellFormed t) (d : DocumentId) :
    ((t.metadataLog d).map UpdateMetadata.updateId).Nodup := by
  rw [map_updateId_metadataLog hw]
  exact nodup_updateIds t d

theorem nodup_window (hw : UpdatesWellFormed t) (d : DocumentId)
    (lower upper : AcceptanceSequence) :
    ((t.window d lower upper).map UpdateMetadata.updateId).Nodup := by
  rw [hw.window_eq]
  exact (nodup_metadataLog hw d).sublist
    (((List.drop_sublist ..).trans (List.take_sublist ..)).map _)

namespace DurableUpdateStore

variable {s : DurableUpdateStore}

theorem log_step (hw : WellFormed s.tables) (request : Request) (d : DocumentId) :
    s.tables.log d <+: (s.step sha256 request).tables.log d := by
  rcases effect_step sha256 s request with heq | ⟨m, -, heffect⟩
  · rw [heq]
  · exact heffect.log_prefix hw d

/-- **What has been accepted stays at the beginning of the log.** -/
theorem log_run (hw : WellFormed s.tables) (requests : List Request) (d : DocumentId) :
    s.tables.log d <+: (s.run sha256 requests).tables.log d := by
  induction requests generalizing s with
  | nil => exact List.prefix_rfl
  | cons request requests ih =>
    exact (log_step hw request d).trans (ih (wellFormed_step hw request))

end DurableUpdateStore

end Renee
