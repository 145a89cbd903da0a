import Storefront.Proofs.Configuration.RoundTrip
import Mathlib.Logic.Relation
/-!
# Interrupted saves and purges

Saving and purging make one call after the other, and a store may refuse any of them. For a store
that does what a call asks or nothing of it (`ActsWhole`), a refusal leaves exactly the calls before
it done: their options hold what was asked for, every other option is as before, and no later call
was made (`StoppedAt`). This says nothing about the store's state beyond its options, so the store
may count its calls or wait for better times.

A save that goes through repairs all of this. It overwrites every option that an earlier save can
have touched, so it does not matter how many of them failed, at which field and with which rule-sets
(`save_purge_stoppedAt`).

Of a table in which certain options cannot be written this tells where a save stops: at the first
rule-set field that is one of them (`exists_stoppedAt_save_onRefusingTable`), and only there
(`exists_save_onRefusingTable_iff`).
-/

namespace Storefront

open Relation

namespace OptionBackend

/-! ### Calls -/

/-- A call that may change a store. -/
inductive Call where
  /-- An option is set. -/
  | update (option : String) (v : StoredValue)
  /-- An option is deleted. -/
  | delete (option : String)

/-- The option that a call is about. -/
def Call.option : Call → String
  | update option _ => option
  | delete option => option

/-- What the option of a call holds once the call is done. -/
def Call.target : Call → Option StoredValue
  | update _ v => some v
  | delete _ => none

variable {σ : Type} (b : OptionBackend σ)

/-- Makes a call. -/
def perform : Call → σ → Except StoreError Unit × σ
  | .update option v, s => b.update option v s
  | .delete option, s => b.delete option s

/-- Makes calls one after the other, up to the first failure. -/
def performAll : List Call → σ → Except StoreError Unit × σ
  | [], s => (.ok (), s)
  | call :: calls, s =>
    match b.perform call s with
    | (.ok (), s) => performAll calls s
    | (.error e, s) => (.error e, s)

theorem updateAll_eq_performAll (options : List (String × StoredValue)) (s : σ) :
    b.updateAll options s = b.performAll (options.map fun o ↦ .update o.1 o.2) s := by
  induction options generalizing s with
  | nil => rfl
  | cons o options ih =>
    rw [updateAll, List.map_cons, performAll, perform]
    rcases b.update o.1 o.2 s with ⟨- | -, t⟩
    · rfl
    · exact ih t

theorem deleteAll_eq_performAll (names : List String) (s : σ) :
    b.deleteAll names s = b.performAll (names.map .delete) s := by
  induction names generalizing s with
  | nil => rfl
  | cons option names ih =>
    rw [deleteAll, List.map_cons, performAll, perform]
    rcases b.delete option s with ⟨- | -, t⟩
    · rfl
    · exact ih t

/-- A store that writes down the calls that are made and is otherwise the given one. -/
def recording : OptionBackend (σ × List Call) where
  get? option s := b.get? option s.1
  update option v s :=
    let (answer, t) := b.update option v s.1
    (answer, t, s.2 ++ [.update option v])
  delete option s :=
    let (answer, t) := b.delete option s.1
    (answer, t, s.2 ++ [.delete option])

variable {b} {call last : Call} {calls done : List Call} {e : StoreError} {s s' t : σ}

theorem performAll_cons_of_ok (h : b.perform call s = (.ok (), t)) :
    b.performAll (call :: calls) s = b.performAll calls t := by
  rw [performAll, h]

theorem performAll_cons_of_error (h : b.perform call s = (.error e, s')) :
    b.performAll (call :: calls) s = (.error e, s') := by
  rw [performAll, h]

/-- Calls go through exactly if the first one does and the others do after it. -/
theorem performAll_cons_eq_ok_iff :
    b.performAll (call :: calls) s = (.ok (), s') ↔
      ∃ t, b.perform call s = (.ok (), t) ∧ b.performAll calls t = (.ok (), s') := by
  rw [performAll]
  rcases b.perform call s with ⟨- | -, t⟩ <;> simp

/-- Calls fail exactly if some call does and all before it go through; this call's error and what it
leaves is the result. -/
theorem performAll_eq_error_iff :
    b.performAll calls s = (.error e, s') ↔ ∃ done last rest t, calls = done ++ last :: rest ∧
      b.performAll done s = (.ok (), t) ∧ b.perform last t = (.error e, s') := by
  constructor
  · intro h
    induction calls generalizing s with
    | nil => cases h
    | cons call calls ih =>
      rcases hcall : b.perform call s with ⟨f | ⟨⟨⟩⟩, t⟩
      · rw [performAll_cons_of_error hcall] at h
        exact ⟨[], call, calls, s, rfl, rfl, hcall.trans h⟩
      · rw [performAll_cons_of_ok hcall] at h
        obtain ⟨done, last, rest, u, rfl, hdone, hlast⟩ := ih h
        exact ⟨call :: done, last, rest, u, rfl, (performAll_cons_of_ok hcall).trans hdone, hlast⟩
  · rintro ⟨done, last, rest, t, rfl, hdone, hlast⟩
    induction done generalizing s with
    | nil =>
      cases hdone
      exact performAll_cons_of_error hlast
    | cons call done ih =>
      obtain ⟨u, hcall, hrest⟩ := performAll_cons_eq_ok_iff.1 hdone
      exact (performAll_cons_of_ok hcall).trans (ih hrest)

/-! ### What was asked for -/

theorem perform_recording (log : List Call) :
    b.recording.perform call (s, log) =
      ((b.perform call s).1, (b.perform call s).2, log ++ [call]) := by
  cases call <;> rfl

theorem performAll_recording_of_ok (h : b.performAll calls s = (.ok (), s')) (log : List Call) :
    b.recording.performAll calls (s, log) = (.ok (), s', log ++ calls) := by
  induction calls generalizing s log with
  | nil =>
    cases h
    rw [List.append_nil]
    rfl
  | cons call calls ih =>
    obtain ⟨t, hcall, hrest⟩ := performAll_cons_eq_ok_iff.1 h
    have hstep : b.recording.perform call (s, log) = (.ok (), t, log ++ [call]) := by
      rw [perform_recording, hcall]
    rw [performAll_cons_of_ok hstep, ih hrest, List.append_assoc, List.singleton_append]

/-- Nothing is asked for after the call that fails. -/
theorem performAll_recording_of_error {rest : List Call}
    (hdone : b.performAll done s = (.ok (), t)) (hlast : b.perform last t = (.error e, s'))
    (log : List Call) :
    b.recording.performAll (done ++ last :: rest) (s, log) =
      (.error e, s', log ++ (done ++ [last])) := by
  have hstep : b.recording.perform last (t, log ++ done) =
      (.error e, s', log ++ (done ++ [last])) := by
    rw [perform_recording, hlast, List.append_assoc]
  exact performAll_eq_error_iff.2 ⟨done, last, rest, _, rfl, performAll_recording_of_ok hdone log,
    hstep⟩

/-! ### Stores that do all of a call or nothing -/

/-- A call that is done as a whole or not at all, as far as options can tell. -/
structure ActsWhole (b : OptionBackend σ) (call : Call) : Prop where
  /-- Done, it changes its option and no other. -/
  get?_of_ok {s s' : σ} (h : b.perform call s = (.ok (), s')) (option : String) :
    b.get? option s' = if option = call.option then call.target else b.get? option s
  /-- Refused, it changes none. -/
  get?_of_error {s s' : σ} {e : StoreError} (h : b.perform call s = (.error e, s'))
    (option : String) : b.get? option s' = b.get? option s

/-- A store that sets an option or fails and changes nothing. -/
def UpdatesWhole (b : OptionBackend σ) : Prop := ∀ option v, b.ActsWhole (.update option v)

/-- A store that deletes an option or fails and changes nothing. -/
def DeletesWhole (b : OptionBackend σ) : Prop := ∀ option, b.ActsWhole (.delete option)

/-- What is not asked for stays. -/
theorem get?_of_performAll_of_notMem (hwhole : ∀ call ∈ calls, b.ActsWhole call)
    (h : b.performAll calls s = (.ok (), s')) {option : String}
    (hoption : option ∉ calls.map Call.option) : b.get? option s' = b.get? option s := by
  induction calls generalizing s with
  | nil =>
    cases h
    rfl
  | cons call calls ih =>
    obtain ⟨t, hcall, hrest⟩ := performAll_cons_eq_ok_iff.1 h
    obtain ⟨hhead, htail⟩ := List.forall_mem_cons.1 hwhole
    rw [List.map_cons, List.mem_cons, not_or] at hoption
    rw [ih htail hrest hoption.2, hhead.get?_of_ok hcall, if_neg hoption.1]

/-- What is asked for once is there in the end. -/
theorem get?_of_performAll_of_mem (hwhole : ∀ call ∈ calls, b.ActsWhole call)
    (hnodup : (calls.map Call.option).Nodup) (h : b.performAll calls s = (.ok (), s'))
    (hmem : call ∈ calls) : b.get? call.option s' = call.target := by
  induction calls generalizing s with
  | nil => cases hmem
  | cons first calls ih =>
    obtain ⟨t, hfirst, hrest⟩ := performAll_cons_eq_ok_iff.1 h
    obtain ⟨hhead, htail⟩ := List.forall_mem_cons.1 hwhole
    obtain ⟨hnotMem, hnodup⟩ := List.nodup_cons.1 hnodup
    rcases List.mem_cons.1 hmem with rfl | hmem
    · rw [get?_of_performAll_of_notMem htail hrest hnotMem, hhead.get?_of_ok hfirst, if_pos rfl]
    · exact ih htail hnodup hrest hmem

/-- How a call was refused and what is left then, if the given calls came before it. -/
structure StoppedAt (b : OptionBackend σ) (done : List Call) (last : Call) (e : StoreError)
    (s s' : σ) : Prop where
  /-- All calls before it went through, and the error is the store's answer to this one. -/
  refused : ∃ t, b.performAll done s = (.ok (), t) ∧ b.perform last t = (.error e, s')
  /-- What the calls before it asked for is there. -/
  get?_done : ∀ call ∈ done, b.get? call.option s' = call.target
  /-- Every other option is as it was. -/
  get?_others : ∀ option ∉ done.map Call.option, b.get? option s' = b.get? option s

theorem stoppedAt {rest : List Call} (hwhole : ∀ call ∈ done ++ last :: rest, b.ActsWhole call)
    (hnodup : ((done ++ last :: rest).map Call.option).Nodup)
    (hdone : b.performAll done s = (.ok (), t)) (hlast : b.perform last t = (.error e, s')) :
    b.StoppedAt done last e s s' := by
  obtain ⟨hfront, hback⟩ := List.forall_mem_append.1 hwhole
  have hsame := (List.forall_mem_cons.1 hback).1.get?_of_error hlast
  rw [List.map_append] at hnodup
  refine ⟨⟨t, hdone, hlast⟩, fun call hcall ↦ ?_, fun option hoption ↦ ?_⟩
  · rw [hsame, get?_of_performAll_of_mem hfront hnodup.of_append_left hdone hcall]
  · rw [hsame, get?_of_performAll_of_notMem hfront hdone hoption]

/-- Calls for the members of a list that fail, told by the member whose call it was. -/
theorem exists_stoppedAt_of_error {α : Type} {as : List α} {f : α → Call}
    (hwhole : ∀ a, b.ActsWhole (f a)) (hnodup : ((as.map f).map Call.option).Nodup)
    (h : b.performAll (as.map f) s = (.error e, s')) :
    ∃ done a rest, as = done ++ a :: rest ∧ b.StoppedAt (done.map f) (f a) e s s' ∧
      ∀ log, b.recording.performAll (as.map f) (s, log) =
        (.error e, s', log ++ (done ++ [a]).map f) := by
  obtain ⟨doneCalls, last, restCalls, t, hsplit, hdone, hlast⟩ := performAll_eq_error_iff.1 h
  obtain ⟨done, back, rfl, rfl, hback⟩ := List.map_eq_append_iff.1 hsplit
  obtain ⟨a, rest, rfl, rfl, rfl⟩ := List.map_eq_cons_iff.1 hback
  have hall : ∀ call ∈ done.map f ++ f a :: rest.map f, b.ActsWhole call := by
    rw [← hsplit]
    exact List.forall_mem_map.2 fun x _ ↦ hwhole x
  rw [hsplit] at hnodup ⊢
  refine ⟨done, a, rest, rfl, stoppedAt hall hnodup hdone hlast, fun log ↦ ?_⟩
  rw [performAll_recording_of_error hdone hlast, List.map_append]
  rfl

end OptionBackend

namespace Configuration

open OptionBackend

variable {σ : Type} (c : Configuration σ)

/-! ### Saving and purging as calls -/

/-- The call that writes a rule-set field. -/
def writing (rs : List Ruleset) (f : RulesetField) : Call :=
  .update (c.naming.ofRulesetField f) (f.column (repaired rs))

/-- The call that deletes a field. -/
def deleting (f : Field) : Call := .delete (c.naming.ofField f)

/-- The configuration in a store that writes down the calls that are made. -/
def recording : Configuration (σ × List Call) where
  backend := c.backend.recording
  naming := c.naming

theorem updateAll_columns (rs : List Ruleset) (s : σ) :
    c.backend.updateAll (c.columns rs) s =
      c.backend.performAll (RulesetField.all.map (c.writing rs)) s := by
  rw [updateAll_eq_performAll, columns, List.map_map]
  rfl

theorem purge_eq_performAll (s : σ) :
    c.purge s = c.backend.performAll (Field.all.map c.deleting) s := by
  rw [purge, deleteAll_eq_performAll, List.map_map]
  rfl

theorem nodup_map_writing (rs : List Ruleset) :
    ((RulesetField.all.map (c.writing rs)).map Call.option).Nodup := by
  have hnames := nodup_map_fst_columns c.naming rs
  rw [map_fst_columns] at hnames
  rwa [List.map_map]

theorem nodup_map_deleting : ((Field.all.map c.deleting).map Call.option).Nodup := by
  have hfields : Field.all.Nodup := by decide
  rw [List.map_map]
  exact hfields.map c.naming.ofField_injective

variable {c} {rs written : List Ruleset} {e : StoreError} {s s' t : σ}

theorem save_eq_ok_iff :
    c.save rs s = (.ok written, s') ↔
      c.backend.performAll (RulesetField.all.map (c.writing rs)) s = (.ok (), s') ∧
        written = repaired rs := by
  rw [save, updateAll_columns]
  rcases c.backend.performAll (RulesetField.all.map (c.writing rs)) s with ⟨- | -, t⟩
  · simp
  · simp [and_comm, eq_comm]

theorem save_eq_error_iff :
    c.save rs s = (.error e, s') ↔
      c.backend.performAll (RulesetField.all.map (c.writing rs)) s = (.error e, s') := by
  rw [save, updateAll_columns]
  rcases c.backend.performAll (RulesetField.all.map (c.writing rs)) s with ⟨- | -, t⟩ <;> simp

/-! ### Failed saves and the one after them -/

/-- Writing rule-set fields asks for no option under another name. -/
theorem notMem_map_writing {option : String}
    (hoption : ∀ f, option ≠ c.naming.ofRulesetField f) (fields : List RulesetField) :
    option ∉ (fields.map (c.writing rs)).map Call.option := by
  rw [List.map_map]
  intro hmem
  obtain ⟨f, -, heq⟩ := List.mem_map.1 hmem
  exact hoption f heq.symm

/-- The options after a save that went through: the rule-set fields as written, and nothing else
changed. -/
theorem get?_of_save_eq_ok (hwhole : c.backend.UpdatesWhole)
    (h : c.save rs s = (.ok written, s')) :
    (∀ f, c.field? (.ruleset f) s' = some (f.column (repaired rs))) ∧
    ∀ option, (∀ f, option ≠ c.naming.ofRulesetField f) →
      c.backend.get? option s' = c.backend.get? option s := by
  obtain ⟨hcalls, -⟩ := save_eq_ok_iff.1 h
  have hall : ∀ call ∈ RulesetField.all.map (c.writing rs), c.backend.ActsWhole call :=
    List.forall_mem_map.2 fun f _ ↦ hwhole _ _
  refine ⟨fun f ↦ ?_, fun option hoption ↦ ?_⟩
  · exact get?_of_performAll_of_mem hall (c.nodup_map_writing rs) hcalls
      (List.mem_map_of_mem (RulesetField.mem_all f))
  · exact get?_of_performAll_of_notMem hall hcalls (notMem_map_writing hoption _)

theorem exists_stoppedAt_of_save (hwhole : c.backend.UpdatesWhole)
    (h : c.save rs s = (.error e, s')) :
    ∃ done f rest, RulesetField.all = done ++ f :: rest ∧
      c.backend.StoppedAt (done.map (c.writing rs)) (c.writing rs f) e s s' ∧
      ∀ log, c.recording.save rs (s, log) =
        (.error e, s', log ++ (done ++ [f]).map (c.writing rs)) := by
  obtain ⟨done, f, rest, hfields, hstopped, hrecorded⟩ := exists_stoppedAt_of_error
    (fun _ ↦ hwhole _ _) (c.nodup_map_writing rs) (save_eq_error_iff.1 h)
  exact ⟨done, f, rest, hfields, hstopped, fun log ↦ save_eq_error_iff.2 (hrecorded log)⟩

variable (c) in
/-- One failed save, with any rule-sets. -/
def FailedSave (s s' : σ) : Prop := ∃ rs e, c.save rs s = (.error e, s')

/-- A failed save touches no option but those of the rule-set fields. -/
theorem FailedSave.get?_eq (hwhole : c.backend.UpdatesWhole) (h : c.FailedSave s s')
    {option : String} (hoption : ∀ f, option ≠ c.naming.ofRulesetField f) :
    c.backend.get? option s' = c.backend.get? option s := by
  obtain ⟨rs, e, h⟩ := h
  obtain ⟨done, f, rest, -, hstopped, -⟩ := exists_stoppedAt_of_save hwhole h
  exact hstopped.get?_others option (notMem_map_writing hoption done)

/-- Neither do any number of them. -/
theorem get?_eq_of_failedSaves (hwhole : c.backend.UpdatesWhole)
    (h : ReflTransGen c.FailedSave s t) {option : String}
    (hoption : ∀ f, option ≠ c.naming.ofRulesetField f) :
    c.backend.get? option t = c.backend.get? option s := by
  induction h with
  | refl => rfl
  | tail _ hstep ih => rw [hstep.get?_eq hwhole hoption, ih]

variable (c) in
/-- **A failing store leaves a prefix of the work, and the next save repairs it.** Let a store do
what an update asks or nothing of it, and whatever it fails for be its own affair. A save that fails
does so at a field of the rule-sets: it gives the store's answer there, the fields before it are
written, every other option is as before, and nothing was asked for after that. After any number of
failed saves, one that goes through writes every field and leaves the other options as they were
before the first of them; these are the options that it leaves where the same options are found and
it goes through at once. A purge in a store that deletes an option or nothing is interrupted in the
same way. -/
theorem save_purge_stoppedAt :
    (c.backend.UpdatesWhole →
      (∀ rs e s s', c.save rs s = (.error e, s') → ∃ done f rest,
        RulesetField.all = done ++ f :: rest ∧
        c.backend.StoppedAt (done.map (c.writing rs)) (c.writing rs f) e s s' ∧
        ∀ log, c.recording.save rs (s, log) =
          (.error e, s', log ++ (done ++ [f]).map (c.writing rs))) ∧
      ∀ s t, ReflTransGen c.FailedSave s t → ∀ rs written t', c.save rs t = (.ok written, t') →
        written = repaired rs ∧
        (∀ f, c.field? (.ruleset f) t' = some (f.column (repaired rs))) ∧
        (∀ option, (∀ f, option ≠ c.naming.ofRulesetField f) →
          c.backend.get? option t' = c.backend.get? option s) ∧
        ∀ u written' u', (∀ option, c.backend.get? option u = c.backend.get? option s) →
          c.save rs u = (.ok written', u') →
          ∀ option, c.backend.get? option t' = c.backend.get? option u') ∧
    (c.backend.DeletesWhole → ∀ e s s', c.purge s = (.error e, s') → ∃ done f rest,
      Field.all = done ++ f :: rest ∧
      c.backend.StoppedAt (done.map c.deleting) (c.deleting f) e s s' ∧
      ∀ log, c.recording.purge (s, log) =
        (.error e, s', log ++ (done ++ [f]).map c.deleting)) := by
  refine ⟨fun hwhole ↦ ⟨fun rs e s s' h ↦ exists_stoppedAt_of_save hwhole h, ?_⟩, ?_⟩
  · intro s t hfailed rs written t' hsave
    obtain ⟨hfields, hothers⟩ := get?_of_save_eq_ok hwhole hsave
    have hkept : ∀ option, (∀ f, option ≠ c.naming.ofRulesetField f) →
        c.backend.get? option t' = c.backend.get? option s := fun option hoption ↦
      (hothers option hoption).trans (get?_eq_of_failedSaves hwhole hfailed hoption)
    refine ⟨(save_eq_ok_iff.1 hsave).2, hfields, hkept, fun u written' u' hsame hatOnce option ↦ ?_⟩
    obtain ⟨hfields', hothers'⟩ := get?_of_save_eq_ok hwhole hatOnce
    by_cases hoption : ∃ f, option = c.naming.ofRulesetField f
    · obtain ⟨f, rfl⟩ := hoption
      exact (hfields f).trans (hfields' f).symm
    · have hoption : ∀ f, option ≠ c.naming.ofRulesetField f := not_exists.1 hoption
      rw [hkept option hoption, hothers' option hoption, hsame option]
  · intro hwhole e s s' h
    rw [purge_eq_performAll] at h
    obtain ⟨done, f, rest, hfields, hstopped, hrecorded⟩ :=
      exists_stoppedAt_of_error (fun _ ↦ hwhole _) c.nodup_map_deleting h
    refine ⟨done, f, rest, hfields, hstopped, fun log ↦ ?_⟩
    rw [purge_eq_performAll]
    exact hrecorded log

end Configuration

/-! ### A store that fails now and then -/

namespace OptionBackend

variable {σ : Type} {b : OptionBackend σ} {call : Call}

/-- A store that answers as a script says, one answer for each call: it refuses, or does what the
given store does. It does what the script leaves open. -/
def faltering (b : OptionBackend σ) : OptionBackend (σ × List Bool) where
  get? option s := b.get? option s.1
  update option v s :=
    if s.2.headD true then ((b.update option v s.1).1, (b.update option v s.1).2, s.2.tail)
    else (.error (.write option "refused"), s.1, s.2.tail)
  delete option s :=
    if s.2.headD true then ((b.delete option s.1).1, (b.delete option s.1).2, s.2.tail)
    else (.error (.delete option "refused"), s.1, s.2.tail)

theorem perform_faltering (call : Call) (s : σ × List Bool) :
    ∃ e, b.faltering.perform call s =
      if s.2.headD true then ((b.perform call s.1).1, (b.perform call s.1).2, s.2.tail)
      else (.error e, s.1, s.2.tail) := by
  cases call with
  | update option v => exact ⟨_, rfl⟩
  | delete option => exact ⟨_, rfl⟩

/-- Whether a call is done as a whole does not depend on how often it is refused. -/
theorem ActsWhole.faltering (h : b.ActsWhole call) : b.faltering.ActsWhole call where
  get?_of_ok {s s'} hperform option := by
    obtain ⟨e, hcall⟩ := perform_faltering (b := b) call s
    rw [hcall] at hperform
    split at hperform
    · obtain ⟨hok, rfl⟩ := Prod.mk.inj hperform
      exact h.get?_of_ok (Prod.ext hok rfl) option
    · cases hperform
  get?_of_error {s s' f} hperform option := by
    obtain ⟨e, hcall⟩ := perform_faltering (b := b) call s
    rw [hcall] at hperform
    split at hperform
    · obtain ⟨herror, rfl⟩ := Prod.mk.inj hperform
      exact h.get?_of_error (Prod.ext herror rfl) option
    · cases hperform
      rfl

end OptionBackend

namespace OptionTable

open OptionBackend

theorem actsWhole_backend (call : Call) : backend.ActsWhole call where
  get?_of_ok {t t'} h option := by
    match call with
    | .update updated v =>
      cases h
      show (t.insert updated v).get? option = if option = updated then some v else t.get? option
      split
      · next heq => rw [heq, get?_insert_self]
      · next hne => exact get?_insert_of_ne t hne v
    | .delete deleted =>
      cases h
      show (t.erase deleted).get? option = if option = deleted then none else t.get? option
      rw [OrderedMap.get?_erase]
      simp only [Std.LawfulEqCmp.compare_eq_iff_eq]
  get?_of_error {t t' e} h option := by
    cases call with
    | update updated v => cases h
    | delete deleted => cases h

end OptionTable

namespace Configuration

/-- The member that a list is split at is the one at the place of the split. -/
theorem eq_take_of_split {α : Type} {as done rest : List α} {a : α} {n : Nat}
    (h : as = done ++ a :: rest) (hn : done.length = n) : done = as.take n ∧ as[n]? = some a := by
  subst h hn
  simp

/-- The script lets two updates of the first save through and none of the second. The third save
leaves the options that it leaves where nothing is refused. Of a purge one deletion goes through. -/
theorem save_purge_stoppedAt_faltering :
    let c : Configuration (OptionTable × List Bool) := { backend := OptionTable.backend.faltering }
    let t : OptionTable := OrderedMap.empty.insert "woo_shop_manager_rule_toggle" (.text "stale")
    let s := (t, [true, true, false, false])
    let s₁ := (c.save mixedRulesets s).2
    let s₂ := (c.save [] s₁).2
    let s₃ := (c.save mixedRulesets s₂).2
    (c.backend.UpdatesWhole ∧ c.backend.DeletesWhole) ∧
    ((c.save mixedRulesets s).1 =
        .error (.write "woo_shop_manager_condition_subfield" "refused") ∧
      c.backend.StoppedAt ([.conditions, .operator].map (c.writing mixedRulesets))
        (c.writing mixedRulesets .conditionSubfield)
        (.write "woo_shop_manager_condition_subfield" "refused") s s₁) ∧
    ((c.save [] s₁).1 = .error (.write "woo_shop_manager_conditions" "refused") ∧
      (c.save mixedRulesets s₂).1 = .ok (repaired mixedRulesets) ∧
      ∀ option, c.backend.get? option s₃ =
        c.backend.get? option (c.save mixedRulesets (t, [])).2) ∧
    (c.purge s).1 = .error (.delete "woo_shop_manager_api_password" "refused") ∧
      c.backend.StoppedAt ([.cronLog, .licenseKey].map c.deleting) (c.deleting .licensePassword)
        (.delete "woo_shop_manager_api_password" "refused") s (c.purge s).2 := by
  intro c t s s₁ s₂ s₃
  obtain ⟨hsave, hpurge⟩ := save_purge_stoppedAt c
  have hupdates : c.backend.UpdatesWhole := fun _ _ ↦ (OptionTable.actsWhole_backend _).faltering
  have hdeletes : c.backend.DeletesWhole := fun _ ↦ (OptionTable.actsWhole_backend _).faltering
  obtain ⟨hfirst, hrepair⟩ := hsave hupdates
  have h₁ : c.save mixedRulesets s =
      (.error (.write "woo_shop_manager_condition_subfield" "refused"), s₁) := rfl
  have h₂ : c.save [] s₁ = (.error (.write "woo_shop_manager_conditions" "refused"), s₂) := rfl
  have h₃ : c.save mixedRulesets s₂ = (.ok (repaired mixedRulesets), s₃) := rfl
  refine ⟨⟨hupdates, hdeletes⟩, ⟨rfl, ?_⟩, ⟨rfl, rfl, ?_⟩, rfl, ?_⟩
  · obtain ⟨done, f, rest, hfields, hstopped, hrecorded⟩ := hfirst _ _ _ _ h₁
    -- Three calls were made, so that two of them went through.
    have hcalls : (c.recording.save mixedRulesets (s, [])).2.2.length = 3 := rfl
    rw [hrecorded []] at hcalls
    obtain ⟨rfl, hf⟩ := eq_take_of_split hfields (n := 2) (by simpa using hcalls)
    obtain rfl := Option.some.inj hf
    exact hstopped
  · have hfailed : ReflTransGen c.FailedSave s s₂ :=
      .tail (.single ⟨_, _, h₁⟩) ⟨_, _, h₂⟩
    obtain ⟨-, -, -, hsame⟩ := hrepair _ _ hfailed _ _ _ h₃
    exact hsame (t, []) (repaired mixedRulesets) _ (fun _ ↦ rfl) rfl
  · obtain ⟨done, f, rest, hfields, hstopped, hrecorded⟩ :=
      hpurge hdeletes (.delete "woo_shop_manager_api_password" "refused") s (c.purge s).2 rfl
    have hcalls : (c.recording.purge (s, [])).2.2.length = 3 := rfl
    rw [hrecorded []] at hcalls
    obtain ⟨rfl, hf⟩ := eq_take_of_split hfields (n := 2) (by simpa using hcalls)
    obtain rfl := Option.some.inj hf
    exact hstopped

end Configuration

/-! ### A store that refuses certain options -/

namespace OptionBackend

/-- The answer of a store that refuses a call. -/
def Call.refusal : Call → StoreError
  | .update option _ => .write option "refused"
  | .delete option => .delete option "refused"

/-- Whether a call is one of those that are refused. -/
def Call.IsRefused (updates deletions : List String) : Call → Prop
  | .update option _ => option ∈ updates
  | .delete option => option ∈ deletions

variable {σ : Type} {b : OptionBackend σ} {call : Call} {calls : List Call}
  {updates deletions : List String}

theorem perform_refusing_of_isRefused (h : call.IsRefused updates deletions) (s : σ) :
    (b.refusing updates deletions).perform call s = (.error call.refusal, s) := by
  cases call <;> exact if_pos h

theorem perform_refusing_of_not (h : ¬ call.IsRefused updates deletions) (s : σ) :
    (b.refusing updates deletions).perform call s = b.perform call s := by
  cases call <;> exact if_neg h

/-- A call that is done as a whole is done so or refused. -/
theorem ActsWhole.refusing (h : b.ActsWhole call) :
    (b.refusing updates deletions).ActsWhole call where
  get?_of_ok {s s'} hperform option := by
    by_cases hrefused : call.IsRefused updates deletions
    · rw [perform_refusing_of_isRefused hrefused] at hperform
      cases hperform
    · rw [perform_refusing_of_not hrefused] at hperform
      exact h.get?_of_ok hperform option
  get?_of_error {s s' e} hperform option := by
    by_cases hrefused : call.IsRefused updates deletions
    · rw [perform_refusing_of_isRefused hrefused] at hperform
      cases hperform
      rfl
    · rw [perform_refusing_of_not hrefused] at hperform
      exact h.get?_of_error hperform option

/-- Calls on a table go through exactly if none of them is refused. -/
theorem exists_performAll_refusing_iff {t : OptionTable} :
    (∃ t', (OptionTable.backend.refusing updates deletions).performAll calls t = (.ok (), t')) ↔
      ∀ call ∈ calls, ¬ call.IsRefused updates deletions := by
  induction calls generalizing t with
  | nil => exact iff_of_true ⟨t, rfl⟩ (List.forall_mem_nil _)
  | cons call calls ih =>
    simp only [List.forall_mem_cons, performAll_cons_eq_ok_iff]
    constructor
    · rintro ⟨t', u, hcall, hcalls⟩
      refine ⟨fun hrefused ↦ ?_, ih.1 ⟨t', hcalls⟩⟩
      rw [perform_refusing_of_isRefused hrefused] at hcall
      cases hcall
    · rintro ⟨hcall, hcalls⟩
      have hok : ∃ u, OptionTable.backend.perform call t = (.ok (), u) := by
        cases call <;> exact ⟨_, rfl⟩
      obtain ⟨u, hu⟩ := hok
      obtain ⟨t', ht'⟩ := ih.2 hcalls
      exact ⟨t', u, (perform_refusing_of_not hcall t).trans hu, ht'⟩

end OptionBackend

namespace Configuration

open OptionBackend

variable {naming : Naming} {updates deletions : List String} {rs : List Ruleset} {t : OptionTable}

/-- A table in which some options cannot be updated or deleted. -/
def onRefusingTable (naming : Naming) (updates deletions : List String) :
    Configuration OptionTable where
  backend := OptionTable.backend.refusing updates deletions
  naming := naming

theorem forall_not_isRefused_writing {fields : List RulesetField} :
    (∀ call ∈ fields.map ((onRefusingTable naming updates deletions).writing rs),
        ¬ call.IsRefused updates deletions) ↔
      ∀ f ∈ fields, naming.ofRulesetField f ∉ updates :=
  List.forall_mem_map

/-- A save into such a table goes through exactly if no field of the rule-sets is refused. -/
theorem exists_save_onRefusingTable_iff :
    (∃ t', (onRefusingTable naming updates deletions).save rs t = (.ok (repaired rs), t')) ↔
      ∀ f, naming.ofRulesetField f ∉ updates := by
  simp only [save_eq_ok_iff, and_true]
  refine exists_performAll_refusing_iff.trans (forall_not_isRefused_writing.trans ?_)
  exact forall_congr' fun f ↦ imp_iff_right (RulesetField.mem_all f)

/-- Else it stops at the first field that is. -/
theorem exists_stoppedAt_save_onRefusingTable {done rest : List RulesetField} {f : RulesetField}
    (hall : RulesetField.all = done ++ f :: rest)
    (hdone : ∀ g ∈ done, naming.ofRulesetField g ∉ updates)
    (hf : naming.ofRulesetField f ∈ updates) :
    let c := onRefusingTable naming updates deletions
    let e := StoreError.write (naming.ofRulesetField f) "refused"
    ∃ t', c.save rs t = (.error e, t') ∧
      c.backend.StoppedAt (done.map (c.writing rs)) (c.writing rs f) e t t' := by
  intro c e
  obtain ⟨u, hu⟩ := exists_performAll_refusing_iff.2 (forall_not_isRefused_writing.2 hdone)
  have hrefused : (c.writing rs f).IsRefused updates deletions := hf
  have hlast : c.backend.perform (c.writing rs f) u = (.error e, u) :=
    perform_refusing_of_isRefused hrefused u
  have hcalls : RulesetField.all.map (c.writing rs) =
      done.map (c.writing rs) ++ c.writing rs f :: rest.map (c.writing rs) := by
    rw [hall, List.map_append, List.map_cons]
  have hnodup := c.nodup_map_writing rs
  rw [hcalls] at hnodup
  have hwhole (call : Call) : c.backend.ActsWhole call :=
    (OptionTable.actsWhole_backend call).refusing
  exact ⟨u, save_eq_error_iff.2 (performAll_eq_error_iff.2 ⟨_, _, _, u, hcalls, hu, hlast⟩),
    stoppedAt (fun call _ ↦ hwhole call) hnodup hu hlast⟩

end Configuration

end Storefront
