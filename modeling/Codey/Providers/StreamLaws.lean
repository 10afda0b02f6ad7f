import Codey.Lib.Lists
import Codey.Providers.ApiStream

/-!
# Laws of streamed replies

However the fragments of streamed calls interleave, each call is assembled from its own. A reply is
read from a stream only after the frame that ends it.
-/

namespace Codey

namespace Api

/-! ### Fragments -/

structure Fragment where
  index : Nat
  id : Option String
  name : String
  arguments : String

/-- A member that is a text. One that is absent or `None` is no text. -/
def HasMember (fields : Fields) (key text : String) : Prop :=
  fields.get? key = some (.str text) ∨
    (text = "" ∧ (fields.get? key = none ∨ fields.get? key = some .null))

/-- The call of a delta spells a fragment. -/
structure Fragment.Spells (f : Fragment) (call : Fields) : Prop where
  index : call.get? "index" = some (.int f.index)
  id : (call.get? "id").filter (· ≠ .null) = f.id.map .str
  function : (∃ function : Fields, call.get? "function" = some (.obj function) ∧
      HasMember function "name" f.name ∧ HasMember function "arguments" f.arguments) ∨
    (f.name = "" ∧ f.arguments = "" ∧
      (call.get? "function" = none ∨ call.get? "function" = some .null))

structure Carries (fragments : List Fragment) (delta : Fields) : Prop where
  content : ∃ text, HasMember delta "content" text
  calls : ∃ calls : List Fields, (delta.get? "tool_calls" = some (.arr (calls.map .obj)) ∨
      (calls = [] ∧ (delta.get? "tool_calls" = none ∨ delta.get? "tool_calls" = some .null))) ∧
    List.Forall₂ Fragment.Spells fragments calls

def own (fragments : List Fragment) (index : Nat) : List Fragment :=
  fragments.filter (·.index = index)

/-- The fragments are those of the calls, in any order between calls. -/
structure Interleaves (calls : List Slot) (fragments : List Fragment) : Prop where
  called : ∀ f ∈ fragments, ∃ call ∈ calls, call.index = f.index ∧
    ∀ id, f.id = some id → id = call.id
  named : ∀ call ∈ calls, ∃ f ∈ fragments, f.index = call.index ∧ f.id = some call.id
  name : ∀ call ∈ calls, call.name = String.join ((own fragments call.index).map (·.name))
  arguments : ∀ call ∈ calls,
    call.arguments = String.join ((own fragments call.index).map (·.arguments))

variable {fragments done : List Fragment} {f : Fragment} {st : Calls} {ids : Nat → String}

lemma own_snoc (done : List Fragment) (f : Fragment) (index : Nat) :
    own (done ++ [f]) index = own done index ++ if f.index = index then [f] else [] := by
  simp [own, List.filter_append, List.filter_cons]

/-! ### Merging -/

lemma fragment_of_member {function : Fields} {key text : String}
    (h : HasMember function key text) : fragment function key = .ok text := by
  unfold fragment Fields.truthy
  rcases h with h | ⟨rfl, h | h⟩ <;> rw [h]
  · by_cases htext : text = "" <;> simp [Json.truthy, htext]
  · rfl
  · rfl

variable {call : Fields}

lemma Fragment.Spells.deltaId (h : f.Spells call) (hne : ∀ id, f.id = some id → id ≠ "") :
    Api.deltaId call = .ok f.id := by
  have hid := h.id
  unfold Api.deltaId
  cases hf : f.id with
  | none =>
    rw [hf, Option.map_none, Option.filter_eq_none_iff] at hid
    cases hget : call.get? "id" with
    | none => rfl
    | some value =>
      obtain rfl : value = .null := by simpa using hid value hget
      rfl
  | some id =>
    rw [hf, Option.map_some] at hid
    rw [(Option.filter_eq_some_iff.mp hid).1]
    exact if_neg (hne id hf)

lemma Fragment.Spells.texts (h : f.Spells call) : ∃ function,
    deltaFunction call = .ok function ∧ fragment function "name" = .ok f.name ∧
      fragment function "arguments" = .ok f.arguments := by
  rcases h.function with ⟨function, hfunction, hname, harguments⟩ | ⟨hname, harguments, hnone⟩
  · refine ⟨function, ?_, fragment_of_member hname, fragment_of_member harguments⟩
    unfold deltaFunction Fields.truthy
    rw [hfunction]
    cases function <;> rfl
  · refine ⟨[], ?_, by rw [hname]; rfl, by rw [harguments]; rfl⟩
    unfold deltaFunction Fields.truthy
    rcases hnone with hnone | hnone <;> rw [hnone] <;> rfl

/-- What merging a call with an index and a fragment comes to. -/
lemma mergeCall_of_spells (h : f.Spells call) (hne : ∀ id, f.id = some id → id ≠ "") {slot : Slot}
    (hslot : ((st.get? f.index).getD { index := f.index }).identify st f.id = .ok slot) :
    addCall st (.obj call) = .ok (st.put { slot with
      name := slot.name ++ f.name, arguments := slot.arguments ++ f.arguments }) := by
  obtain ⟨function, hfunction, hname, harguments⟩ := h.texts
  have hindex : deltaIndex st f.id call = .ok f.index := by
    unfold deltaIndex
    rw [h.index]
    exact if_pos (Int.natCast_nonneg _)
  simp only [addCall, mergeCall, h.deltaId hne, bind, Except.bind, hindex, hslot, hfunction, hname,
    harguments]
  rfl

/-- The call that the fragments so far make up. -/
def assembly (ids : Nat → String) (done : List Fragment) (index : Nat) : Slot where
  index := index
  id := if (own done index).any (·.id.isSome) then ids index else ""
  name := String.join ((own done index).map (·.name))
  arguments := String.join ((own done index).map (·.arguments))

@[simp] lemma assembly_index (ids : Nat → String) (done : List Fragment) (index : Nat) :
    (assembly ids done index).index = index := rfl

def Assembles (ids : Nat → String) (st : Calls) (done : List Fragment) : Prop :=
  ∀ index, st.get? index = if own done index = [] then none else some (assembly ids done index)

lemma assembles_nil (ids : Nat → String) : Assembles ids .empty [] := fun _ => rfl

lemma Assembles.slot (h : Assembles ids st done) (index : Nat) :
    (st.get? index).getD { index } = assembly ids done index := by
  rw [h index]
  split_ifs with hown
  · simp [assembly, hown, String.join]
  · rfl

lemma assembly_id (ids : Nat → String) (done : List Fragment) (index : Nat) :
    (assembly ids done index).id = "" ∨ (assembly ids done index).id = ids index := by
  unfold assembly
  dsimp only
  split_ifs
  · exact .inr rfl
  · exact .inl rfl

lemma join_snoc (texts : List String) (text : String) :
    String.join (texts ++ [text]) = String.join texts ++ text := by
  simp [String.join]

/-- The ids of the fragments are those of their indices, and no two indices share one. -/
structure Named (ids : Nat → String) (fragments : List Fragment) : Prop where
  id : ∀ f ∈ fragments, ∀ id, f.id = some id → id = ids f.index
  ne : ∀ f ∈ fragments, ids f.index ≠ ""
  inj : ∀ f ∈ fragments, ∀ g ∈ fragments, ids f.index = ids g.index → f.index = g.index

lemma exists_of_own {index : Nat} (h : own done index ≠ []) : ∃ g ∈ done, g.index = index := by
  obtain ⟨g, hg⟩ := List.exists_mem_of_ne_nil _ h
  obtain ⟨hmem, hindex⟩ := List.mem_filter.mp hg
  exact ⟨g, hmem, by simpa using hindex⟩

/-- The id of a fragment fits its slot. -/
lemma Assembles.identify (h : Assembles ids st done) (hnamed : Named ids (done ++ [f])) :
    (assembly ids done f.index).identify st f.id = .ok { assembly ids done f.index with
      id := if f.id.isSome then ids f.index else (assembly ids done f.index).id } := by
  have hmem : f ∈ done ++ [f] := by simp
  cases hf : f.id with
  | none => rfl
  | some id =>
    obtain rfl := hnamed.id f hmem id hf
    have hother : (st.rows.any fun other =>
        other.index ≠ (assembly ids done f.index).index && other.id = ids f.index) = false := by
      rw [List.any_eq_false]
      intro other hrow
      have hget := h other.index
      rw [Table.mem_rows_iff.mp hrow] at hget
      split_ifs at hget with hown
      obtain ⟨g, hg, hindex⟩ := exists_of_own hown
      simp only [Bool.and_eq_true, decide_eq_true_eq, not_and]
      intro hne heq
      rcases assembly_id ids done other.index with hid | hid <;>
        rw [← Option.some.inj hget, heq] at hid
      · exact hnamed.ne f hmem hid
      · exact hne (hindex ▸ hnamed.inj g (List.mem_append_left _ hg) f hmem (hindex ▸ hid.symm))
    simp only [Slot.identify, hother]
    rw [require_eq_ok (u := ()) |>.mpr (by simpa using assembly_id ids done f.index)]
    rfl

lemma assembly_snoc (ids : Nat → String) (done : List Fragment) (f : Fragment) :
    { assembly ids done f.index with
      id := if f.id.isSome then ids f.index else (assembly ids done f.index).id
      name := (assembly ids done f.index).name ++ f.name
      arguments := (assembly ids done f.index).arguments ++ f.arguments }
    = assembly ids (done ++ [f]) f.index := by
  simp only [assembly, own_snoc, if_true, List.map_append, List.map_singleton, join_snoc,
    List.any_append, List.any_cons, List.any_nil]
  cases hid : f.id <;> simp

/-- One fragment more. -/
lemma Assembles.step (h : Assembles ids st done) (hnamed : Named ids (done ++ [f]))
    (hf : f.Spells call) : ∃ st', addCall st (.obj call) = .ok st' ∧
      Assembles ids st' (done ++ [f]) := by
  have hmem : f ∈ done ++ [f] := by simp
  have hne : ∀ id, f.id = some id → id ≠ "" := fun id hid =>
    hnamed.id f hmem id hid ▸ hnamed.ne f hmem
  have hslot := h.identify hnamed
  rw [← h.slot f.index] at hslot
  refine ⟨st.put (assembly ids (done ++ [f]) f.index), ?_, fun index => ?_⟩
  · rw [mergeCall_of_spells hf hne hslot, h.slot f.index, ← assembly_snoc]
  · rw [Table.get?_put, own_snoc, assembly_index]
    by_cases hindex : f.index = index
    · subst hindex
      rw [if_pos rfl, if_pos rfl, if_neg (by simp)]
    · have hkeep : assembly ids (done ++ [f]) index = assembly ids done index := by
        simp [assembly, own_snoc, hindex]
      rw [if_neg hindex, if_neg hindex, List.append_nil, hkeep]
      exact h index

/-! ### Deltas -/

lemma Named.mono (h : Named ids fragments) (hsub : done ⊆ fragments) : Named ids done where
  id f hf := h.id f (hsub hf)
  ne f hf := h.ne f (hsub hf)
  inj f hf g hg := h.inj f (hsub hf) g (hsub hg)

/-- The calls of one delta. -/
lemma Assembles.calls {more : List Fragment} {calls : List Fields}
    (hcalls : List.Forall₂ Fragment.Spells more calls) (h : Assembles ids st done)
    (hnamed : Named ids (done ++ more)) : ∃ st',
      foldE (calls.map .obj) addCall st = .ok st' ∧ Assembles ids st' (done ++ more) := by
  induction hcalls generalizing st done with
  | nil => exact ⟨st, rfl, by rwa [List.append_nil]⟩
  | @cons f call more calls hf _ ih =>
    have hsplit : done ++ f :: more = done ++ [f] ++ more := by simp
    rw [hsplit] at hnamed ⊢
    obtain ⟨st', hst', h'⟩ := h.step (hnamed.mono (List.subset_append_left _ _)) hf
    obtain ⟨st'', hst'', h''⟩ := ih h' hnamed
    exact ⟨st'', foldE_cons_eq_ok.mpr ⟨st', hst', hst''⟩, h''⟩

lemma deltaContent_of_member {delta : Fields} {text : String}
    (h : HasMember delta "content" text) : deltaContent delta = .ok text := by
  unfold deltaContent Fields.truthy
  rcases h with h | ⟨rfl, h | h⟩ <;> rw [h]
  · by_cases htext : text = "" <;> simp [Json.truthy, htext]
  · rfl
  · rfl

lemma Carries.add {chat : Chat} {delta : Fields} (hdelta : Carries fragments delta)
    (h : Assembles ids chat.calls done) (hnamed : Named ids (done ++ fragments)) : ∃ chat',
      addDelta chat (.obj delta) = .ok chat' ∧ Assembles ids chat'.calls (done ++ fragments) := by
  obtain ⟨text, htext⟩ := hdelta.content
  obtain ⟨calls, hlisted, hspelled⟩ := hdelta.calls
  have hcalls : deltaCalls delta = .ok (calls.map .obj) := by
    unfold deltaCalls Fields.truthy
    rcases hlisted with hlisted | ⟨rfl, hlisted | hlisted⟩ <;> rw [hlisted]
    · cases calls <;> rfl
    · rfl
    · rfl
  obtain ⟨st, hst, hassembles⟩ := h.calls hspelled hnamed
  refine ⟨{ content := chat.content ++ text, thoughts := addThoughts delta chat.thoughts
            calls := st }, ?_, hassembles⟩
  simp only [addDelta, deltaContent_of_member htext, hcalls, hst, bind, Except.bind]
  rfl

/-- The deltas of a stream. -/
lemma assembles_deltas {pieces : List (List Fragment)} {deltas : List Fields}
    (hdeltas : List.Forall₂ Carries pieces deltas) {chat : Chat}
    (h : Assembles ids chat.calls done) (hnamed : Named ids (done ++ pieces.flatten)) :
    ∃ chat', foldE (deltas.map .obj) addDelta chat = .ok chat' ∧
      Assembles ids chat'.calls (done ++ pieces.flatten) := by
  induction hdeltas generalizing chat done with
  | nil => exact ⟨chat, rfl, by simpa using h⟩
  | @cons fragments delta pieces deltas hdelta _ ih =>
    rw [List.flatten_cons, ← List.append_assoc] at hnamed ⊢
    obtain ⟨chat', hchat', h'⟩ := hdelta.add h (hnamed.mono (List.subset_append_left _ _))
    obtain ⟨chat'', hchat'', h''⟩ := ih h' hnamed
    exact ⟨chat'', foldE_cons_eq_ok.mpr ⟨chat', hchat', hchat''⟩, h''⟩

/-! ### Assembled calls -/

def idAt (calls : List Slot) (index : Nat) : String :=
  ((calls.find? (·.index = index)).map Slot.id).getD ""

/-- Calls in the order of their indices, each with an id of its own. -/
structure Identified (calls : List Slot) : Prop where
  sorted : calls.Pairwise (·.index < ·.index)
  ids : (calls.map Slot.id).Nodup
  ne : ∀ call ∈ calls, call.id ≠ ""

variable {calls : List Slot}

lemma Identified.idAt (h : Identified calls) {call : Slot} (hcall : call ∈ calls) :
    idAt calls call.index = call.id := by
  have hkeys : (calls.map Slot.index).Nodup :=
    List.pairwise_map.mpr (h.sorted.imp fun hlt => hlt.ne)
  rw [Api.idAt, Table.find?_eq_some_of_mem hkeys hcall]
  rfl

lemma Identified.named (h : Identified calls) (hmix : Interleaves calls fragments) :
    Named (Api.idAt calls) fragments := by
  constructor
  case id =>
    intro f hf id hid
    obtain ⟨call, hcall, hindex, heq⟩ := hmix.called f hf
    rw [← hindex, h.idAt hcall, heq id hid]
  case ne =>
    intro f hf
    obtain ⟨call, hcall, hindex, -⟩ := hmix.called f hf
    rw [← hindex, h.idAt hcall]
    exact h.ne call hcall
  case inj =>
    intro f hf g hg heq
    obtain ⟨call, hcall, hindex, -⟩ := hmix.called f hf
    obtain ⟨other, hother, hindex', -⟩ := hmix.called g hg
    rw [← hindex, ← hindex', h.idAt hcall, h.idAt hother] at heq
    rw [← hindex, ← hindex', List.inj_on_of_nodup_map h.ids hcall hother heq]

lemma Identified.assembly (h : Identified calls) (hmix : Interleaves calls fragments) {call : Slot}
    (hcall : call ∈ calls) : own fragments call.index ≠ [] ∧
      assembly (Api.idAt calls) fragments call.index = call := by
  obtain ⟨f, hf, hindex, hid⟩ := hmix.named call hcall
  have hown : f ∈ own fragments call.index := List.mem_filter.mpr ⟨hf, by simpa using hindex⟩
  refine ⟨List.ne_nil_of_mem hown, ?_⟩
  have hany : (own fragments call.index).any (·.id.isSome) = true :=
    List.any_eq_true.mpr ⟨f, hown, by rw [hid]; rfl⟩
  simp only [Api.assembly, hany, if_true, h.idAt hcall, ← hmix.name call hcall,
    ← hmix.arguments call hcall]

/-- The message lists the calls in the order of their indices. -/
lemma Identified.finish (h : Identified calls) (hmix : Interleaves calls fragments)
    (hst : Assembles (Api.idAt calls) st fragments) :
    st.rows.insertionSort (·.index ≤ ·.index) = calls := by
  have hmem : ∀ call, call ∈ st.rows ↔ call ∈ calls := by
    intro call
    rw [Table.mem_rows_iff, hst call.index]
    constructor
    · intro hget
      split_ifs at hget with hown
      obtain ⟨f, hf, hindex⟩ := exists_of_own hown
      obtain ⟨other, hother, hindex', -⟩ := hmix.called f hf
      rw [← hindex, ← hindex', (h.assembly hmix hother).2] at hget
      exact Option.some.inj hget ▸ hother
    · intro hcall
      obtain ⟨hown, heq⟩ := h.assembly hmix hcall
      rw [if_neg hown, heq]
  have hperm := List.perm_insertionSort (fun a b : Slot => a.index ≤ b.index) st.rows
  have hrows : st.rows.Nodup := st.nodup.of_map
  have hcalls : calls.Nodup := h.sorted.imp fun hlt heq => hlt.ne (congrArg Slot.index heq)
  have : Std.Total fun a b : Slot => a.index ≤ b.index := ⟨fun a b => le_total _ _⟩
  have : IsTrans Slot fun a b => a.index ≤ b.index := ⟨fun a b c => le_trans⟩
  refine List.Perm.eq_of_pairwise ?_
    (List.pairwise_insertionSort _ st.rows) (h.sorted.imp fun hlt => hlt.le)
    (hperm.trans ((List.perm_ext_iff_of_nodup hrows hcalls).mpr hmem))
  intro call other hcall hother hle hge
  have hrow := Table.mem_rows_iff.mp (hperm.subset hcall)
  have hrow' := Table.mem_rows_iff.mp ((hmem other).mpr hother)
  rw [le_antisymm hle hge, hrow'] at hrow
  exact (Option.some.inj hrow).symm

/-- However the fragments of the calls interleave, the finished message lists the calls. -/
lemma finishMessage_of_deltas (h : Identified calls) {pieces : List (List Fragment)}
    {deltas : List Fields} (hmix : Interleaves calls pieces.flatten)
    (hdeltas : List.Forall₂ Carries pieces deltas) :
    ∃ chat, foldE (deltas.map .obj) addDelta {} = .ok chat ∧
      (finishMessage chat).get? "tool_calls" = some (.arr (calls.map Slot.call)) := by
  obtain ⟨chat, hchat, hst⟩ := assembles_deltas hdeltas
    (show Assembles (idAt calls) ({} : Chat).calls [] from assembles_nil _) (h.named hmix)
  refine ⟨chat, hchat, ?_⟩
  simp only [finishMessage, List.cons_append, Fields.get?_cons]
  rw [if_neg (by decide), if_pos trivial, h.finish hmix hst]

/-! ### Lines -/

/-- The lines of a text of bytes, each with its newline. The last line may lack one. -/
def linesOf : Bytes → List Bytes
  | [] => []
  | byte :: rest =>
    if byte = newline then [byte] :: linesOf rest
    else match linesOf rest with
      | [] => [[byte]]
      | line :: lines => (byte :: line) :: lines

def body : List Arrival → Bytes
  | [] => []
  | arrival :: arrivals => match arrival.delivery with
    | .bytes chunk => chunk.val ++ body arrivals
    | _ => []

/-- What the reader still holds or will receive. -/
def BodyReader.text (reader : BodyReader) : Bytes := reader.lineBuffer ++ body reader.arrivals

lemma linesOf_newline {front : Bytes} (h : newline ∉ front) (rest : Bytes) :
    linesOf (front ++ newline :: rest) = (front ++ [newline]) :: linesOf rest := by
  induction front with
  | nil => rw [List.nil_append, linesOf, if_pos rfl, List.nil_append]
  | cons byte front ih =>
    obtain ⟨hne, hrest⟩ := not_or.mp (List.mem_cons.not.mp h)
    rw [List.cons_append, linesOf, if_neg (Ne.symm hne), ih hrest, List.cons_append]

lemma linesOf_last {line : Bytes} (h : newline ∉ line) (hne : line ≠ []) : linesOf line = [line] := by
  induction line with
  | nil => exact absurd rfl hne
  | cons byte line ih =>
    obtain ⟨hfirst, hrest⟩ := not_or.mp (List.mem_cons.not.mp h)
    rw [linesOf, if_neg (Ne.symm hfirst)]
    cases line with
    | nil => rfl
    | cons next line => rw [ih hrest (by simp)]

lemma findNewline_some {buffer : Bytes} {scan marker : Nat} (hscan : newline ∉ buffer.take scan)
    (h : findNewline buffer scan = some marker) :
    newline ∉ buffer.take marker ∧ buffer = buffer.take marker ++
      newline :: buffer.drop (marker + 1) := by
  obtain ⟨offset, hoffset, rfl⟩ := Option.map_eq_some_iff.mp h
  obtain ⟨hlt, hbyte, hbefore⟩ := List.findIdx?_eq_some_iff_getElem.mp hoffset
  rw [List.getElem_drop] at hbyte
  rw [List.length_drop] at hlt
  constructor
  · intro hmem
    rw [List.take_add, List.mem_append] at hmem
    rcases hmem with hmem | hmem
    · exact hscan hmem
    · obtain ⟨i, hi, hget⟩ := List.mem_take_iff_getElem.mp hmem
      have := hbefore i (by omega)
      simp_all
  · have hbyte : buffer[scan + offset] = newline := by simpa using hbyte
    rw [← hbyte, ← List.drop_eq_getElem_cons, List.take_append_drop]

lemma findNewline_none {buffer : Bytes} {scan : Nat} (hscan : newline ∉ buffer.take scan)
    (h : findNewline buffer scan = none) : newline ∉ buffer := by
  intro hmem
  rw [← List.take_append_drop scan buffer, List.mem_append] at hmem
  have := List.findIdx?_eq_none_iff.mp (Option.map_eq_none_iff.mp h) newline
    (hmem.resolve_left hscan)
  simp at this

/-- The line of a buffer with a newline. -/
lemma linesOf_marker {buffer : Bytes} {scan marker : Nat} (hscan : newline ∉ buffer.take scan)
    (h : findNewline buffer scan = some marker) (more : Bytes) :
    buffer.take (marker + 1) ≠ [] ∧ linesOf (buffer ++ more) =
      buffer.take (marker + 1) :: linesOf (buffer.drop (marker + 1) ++ more) := by
  obtain ⟨hfront, hsplit⟩ := findNewline_some hscan h
  have htake : buffer.take (marker + 1) = buffer.take marker ++ [newline] := by
    have hlen : (buffer.take marker).length = marker := by
      have := congrArg List.length hsplit
      simp only [List.length_append, List.length_take, List.length_cons, List.length_drop] at this ⊢
      omega
    conv_lhs => rw [hsplit, List.take_append, hlen, List.take_of_length_le (by omega)]
    simp
  refine ⟨by simp [htake], ?_⟩
  conv_lhs => rw [hsplit, List.append_assoc, List.cons_append, linesOf_newline hfront]
  rw [htake]

/-- `readline` hands out the first line of the text, and nothing at its end. -/
lemma readlineLoop_line {size scan total : Nat} {arrivals : List Arrival} {buffer line : Bytes}
    {reader : BodyReader} (hscan : newline ∉ buffer.take scan)
    (h : readlineLoop size arrivals buffer scan total = .ok (line, reader)) :
    reader.scanPosition = 0 ∧
      linesOf (buffer ++ body arrivals) = if line = [] then [] else line :: linesOf reader.text := by
  induction arrivals generalizing buffer scan total with
  | nil =>
    unfold readlineLoop at h
    split_ifs at h
    split at h
    · rename_i marker hmarker
      obtain ⟨rfl, rfl⟩ := Prod.mk.inj (Except.ok.inj h)
      obtain ⟨hne, hlines⟩ := linesOf_marker hscan hmarker (body [])
      exact ⟨rfl, by rw [if_neg hne, hlines]; rfl⟩
    · rename_i hnone
      obtain ⟨rfl, rfl⟩ := Prod.mk.inj (Except.ok.inj h)
      refine ⟨rfl, ?_⟩
      rw [body, List.append_nil]
      split_ifs with hempty
      · rw [hempty, linesOf]
      · exact linesOf_last (findNewline_none hscan hnone) hempty
  | cons arrival arrivals ih =>
    unfold readlineLoop at h
    split_ifs at h
    split at h
    · rename_i marker hmarker
      obtain ⟨rfl, rfl⟩ := Prod.mk.inj (Except.ok.inj h)
      obtain ⟨hne, hlines⟩ := linesOf_marker hscan hmarker (body (arrival :: arrivals))
      exact ⟨rfl, by rw [if_neg hne, hlines]; rfl⟩
    · rename_i hnone
      obtain ⟨⟨chunk, total'⟩, hchunk, h⟩ := except_bind_eq_ok.mp h
      have hbuffer := findNewline_none hscan hnone
      have hbody : body (arrival :: arrivals) = chunk ++ body arrivals := by
        have hdata := readChunk_data hchunk
        rw [body]
        cases hdelivery : arrival.delivery with
        | bytes data =>
          rw [hdelivery] at hdata
          obtain rfl := Except.ok.inj hdata
          rfl
        | timeout silent => cases silent <;> rw [hdelivery] at hdata <;> cases hdata
        | fails name cancelled => cases cancelled <;> rw [hdelivery] at hdata <;> cases hdata
        | notBytes => rw [hdelivery] at hdata; cases hdata
      rw [hbody, ← List.append_assoc]
      refine ih (fun hmem => hbuffer (List.mem_of_mem_take (i := buffer.length - 1) ?_)) h
      rwa [List.take_append_of_le_length (Nat.sub_le _ _)] at hmem

/-- `readline` of a reader that has handed out whole lines so far. -/
lemma readline_line {reader rest : BodyReader} {size : Nat} {line : Bytes}
    (hscan : reader.scanPosition = 0) (h : reader.readline size = .ok (line, rest)) :
    rest.scanPosition = 0 ∧
      linesOf reader.text = if line = [] then [] else line :: linesOf rest.text :=
  readlineLoop_line (by rw [hscan]; simp) h

/-! ### Frames -/

/-- The frames that a blank line completes, from the lines of data so far on. A blank line is one of
white space only. -/
def framesFrom (data : List Bytes) : List Bytes → List Bytes
  | [] => []
  | line :: lines =>
    if stripBytes line ≠ [] then framesFrom (joinLine data line) lines
    else if data = [] then framesFrom [] lines
    else joinData data :: framesFrom [] lines

def frames (bytes : Bytes) : List Bytes := framesFrom [] (linesOf bytes)

def choicesOf (event : Fields) : List Json :=
  match event.get? "choices" with
  | some (.arr choices) => choices
  | _ => []

def deltaOf : Json → Json
  | .obj choice =>
    if Fields.truthy choice "delta" then ((Fields.get? choice "delta").getD .null) else .obj []
  | _ => .null

section

variable {σ : Type} (accumulator : Accumulator σ) (host : SseHost)

def deltasOf (frame : Bytes) : List Json :=
  match host.loads frame with
  | some (.obj event) => (choicesOf event).map deltaOf
  | _ => []

def Finishes (frame : Bytes) : Prop :=
  ∃ event choice, host.loads frame = some (.obj event) ∧ Json.obj choice ∈ choicesOf event ∧
    Fields.truthy choice "finish_reason" = true

/-- The last frame ends the stream with a message: a terminal event of a Responses stream with its
response, or `[DONE]` after a finish reason and the message of the deltas before it. -/
inductive Terminates (before : List Bytes) (last : Bytes) (message : Fields) : Prop where
  | response {event : Fields} (hevent : host.loads last = some (.obj event))
      (hterminal : isTerminal event = true)
      (hresponse : event.get? "response" = some (.obj message))
  | done {folded : σ} {chat : Fields} {reason : Json} (hdone : last = ascii "[DONE]")
      (hfinished : ∃ frame ∈ before, Finishes host frame)
      (hfolded : foldE (before.flatMap (deltasOf host)) accumulator.addDelta accumulator.start
        = .ok folded)
      (hchat : accumulator.finishMessage folded = .ok chat)
      (hmessage : message = [("choices", .arr [.obj [("finish_reason", reason),
        ("message", .obj chat)]])])

def Complete (bytes : Bytes) (message : Fields) : Prop :=
  ∃ before last after, frames bytes = before ++ last :: after ∧
    Terminates accumulator host before last message

variable {accumulator host}

lemma unresent_eq_ok {α : Type} {what : String} {result : Except StreamError α} {a : α}
    (h : unresent what result = .ok a) : result = .ok a := by
  cases result with
  | ok b => exact h
  | error e => cases h

lemma jsonObject_loads {raw : Bytes} {event : Fields} (h : jsonObject host raw = .ok event) :
    host.loads raw = some (.obj event) := by
  unfold jsonObject at h
  dsimp only at h
  split_ifs at h
  split at h
  · cases h
  · rename_i body hbody
    rw [hbody, Except.ok.inj h]
  · cases h

variable {progress progress' : Progress σ}

/-- The choices of an event, one by one. -/
lemma addChoices_spec {choices : List Json}
    (h : foldE choices (addChoice accumulator) progress = .ok progress') :
    foldE (choices.map deltaOf) accumulator.addDelta progress.accumulator
        = .ok progress'.accumulator ∧
      (progress'.chatFinish.truthy = true → progress.chatFinish.truthy = true ∨
        ∃ choice, Json.obj choice ∈ choices ∧ Fields.truthy choice "finish_reason" = true) := by
  induction choices generalizing progress with
  | nil =>
    obtain rfl := Except.ok.inj h
    exact ⟨rfl, .inl⟩
  | cons choice choices ih =>
    obtain ⟨next, hnext, h⟩ := foldE_cons_eq_ok.mp h
    obtain ⟨hfolded, hfinish⟩ := ih h
    cases choice with
    | obj choice =>
      obtain ⟨-, hnext⟩ := except_seq_eq_ok.mp hnext
      obtain ⟨added, hadded, rfl⟩ := except_last_eq_ok.mp hnext
      refine ⟨foldE_cons_eq_ok.mpr ⟨added, unresent_eq_ok hadded, hfolded⟩, fun htruthy => ?_⟩
      rcases hfinish htruthy with hfinish | ⟨other, hother, htrue⟩
      · by_cases hreason : Fields.truthy choice "finish_reason" = true
        · exact .inr ⟨choice, List.mem_cons_self, hreason⟩
        · exact .inl (by simpa [hreason] using hfinish)
      · exact .inr ⟨other, List.mem_cons_of_mem _ hother, htrue⟩
    | _ => cases hnext

/-- The choices that an event lists, when they can be handled at all. -/
lemma choices_of_iterated {event : Fields} {choices : List Json}
    (hchoices : iterated ((event.get? "choices").getD (.arr [])) = .ok choices)
    (h : foldE choices (addChoice accumulator) progress = .ok progress') :
    choices = choicesOf event := by
  have hnone (texts : List String) (htexts : choices = texts.map .str) : choices = [] := by
    cases texts with
    | nil => exact htexts
    | cons text texts =>
      rw [htexts] at h
      obtain ⟨next, hnext, -⟩ := foldE_cons_eq_ok.mp h
      cases hnext
  unfold choicesOf
  cases hget : event.get? "choices" with
  | none =>
    rw [hget] at hchoices
    exact (Except.ok.inj hchoices).symm
  | some value =>
    rw [hget, Option.getD_some] at hchoices
    cases value with
    | arr items => exact (Except.ok.inj hchoices).symm
    | obj members =>
      refine hnone (members.map Prod.fst) ?_
      rw [← Except.ok.inj hchoices, List.map_map]
      rfl
    | str text =>
      refine hnone (text.toList.map String.singleton) ?_
      rw [← Except.ok.inj hchoices, List.map_map]
      rfl
    | _ => cases hchoices

/-- An event that does not end the stream. -/
lemma handleEvent_inr {event : Fields}
    (h : handleEvent accumulator host progress event = .ok (.inr progress')) :
    foldE (choicesOf event) (addChoice accumulator) progress = .ok progress' := by
  obtain ⟨-, -, h⟩ := except_bind_eq_ok.mp h
  obtain ⟨-, h⟩ := except_seq_eq_ok.mp h
  split_ifs at h with hterminal herror
  · split at h
    · cases Except.ok.inj h
    · cases h
  · obtain ⟨choices, hchoices, h⟩ := except_bind_eq_ok.mp h
    obtain ⟨folded, hfolded, h⟩ := except_last_eq_ok.mp h
    obtain rfl := Sum.inr.inj h
    rwa [← choices_of_iterated hchoices hfolded]

/-- An event that ends the stream. -/
lemma handleEvent_inl {progress : Progress σ} {event result : Fields}
    (h : handleEvent accumulator host progress event = .ok (.inl result)) :
    isTerminal event = true ∧ event.get? "response" = some (.obj result) := by
  obtain ⟨-, -, h⟩ := except_bind_eq_ok.mp h
  obtain ⟨-, h⟩ := except_seq_eq_ok.mp h
  split_ifs at h with hterminal herror
  · split at h
    · rename_i response hresponse
      obtain rfl := Sum.inl.inj (Except.ok.inj h)
      exact ⟨hterminal, hresponse⟩
    · cases h
  · obtain ⟨choices, hchoices, h⟩ := except_bind_eq_ok.mp h
    obtain ⟨folded, hfolded, h⟩ := except_bind_eq_ok.mp h
    cases Except.ok.inj h

/-! ### Runs of the loop -/

variable (accumulator host) in
/-- The loop has handled the frames before, and those that are left make up the stream. -/
structure Reads (bytes : Bytes) (before : List Bytes) (st : SseState σ) : Prop where
  scan : st.reader.scanPosition = 0
  frames : frames bytes = before ++ framesFrom st.data (linesOf st.reader.text)
  folded : foldE (before.flatMap (deltasOf host)) accumulator.addDelta accumulator.start
    = .ok st.progress.accumulator
  finished : st.progress.chatFinish.truthy = true → ∃ frame ∈ before, Finishes host frame

variable {bytes : Bytes} {before : List Bytes} {st : SseState σ}

/-- A turn of the loop that ends it or goes on. -/
lemma Reads.turn {turned : Turn σ} (h : Reads accumulator host bytes before st)
    (hturned : Turned accumulator host st turned) :
    match turned with
    | .more next => ∃ more, Reads accumulator host bytes (before ++ more) next
    | .returned message => Complete accumulator host bytes message
    | .ended _ chatDone progress => progress = st.progress ∧ (chatDone = true →
        ∃ after, Api.frames bytes = before ++ ascii "[DONE]" :: after) := by
  cases hturned with
  | finish hline => exact ⟨rfl, by simp⟩
  | text hline hne hstrip =>
    obtain ⟨hscan, hlines⟩ := readline_line h.scan hline
    refine ⟨[], hscan, ?_, ?_, ?_⟩
    · rw [List.append_nil, h.frames, hlines, if_neg hne, framesFrom, if_pos hstrip]
    · rw [List.append_nil, h.folded]
    · rw [List.append_nil]; exact h.finished
  | blank hline hne hstrip hdata =>
    obtain ⟨hscan, hlines⟩ := readline_line h.scan hline
    refine ⟨[], hscan, ?_, ?_, ?_⟩
    · rw [List.append_nil, h.frames, hlines, if_neg hne, framesFrom, if_neg (not_not.mpr hstrip),
        if_pos hdata, hdata]
    · rw [List.append_nil, h.folded]
    · rw [List.append_nil]; exact h.finished
  | @done line reader hline hne hstrip hdata hdone =>
    obtain ⟨-, hlines⟩ := readline_line h.scan hline
    refine ⟨rfl, fun _ => ⟨framesFrom [] (linesOf reader.text), ?_⟩⟩
    rw [h.frames, hlines, if_neg hne, framesFrom, if_neg (not_not.mpr hstrip), if_neg hdata, hdone]
  | @response line reader event result hline hne hstrip hdata hevent hresult =>
    obtain ⟨-, hlines⟩ := readline_line h.scan hline
    obtain ⟨hterminal, hresponse⟩ := handleEvent_inl hresult
    refine ⟨before, joinData st.data, framesFrom [] (linesOf reader.text), ?_,
      .response (jsonObject_loads hevent) hterminal hresponse⟩
    rw [h.frames, hlines, if_neg hne, framesFrom, if_neg (not_not.mpr hstrip), if_neg hdata]
  | @event line reader event progress hline hne hstrip hdata hdone hevent hprogress =>
    obtain ⟨hscan, hlines⟩ := readline_line h.scan hline
    have hloads := jsonObject_loads hevent
    obtain ⟨hfolded, hfinish⟩ := addChoices_spec (handleEvent_inr hprogress)
    refine ⟨[joinData st.data], hscan, ?_, ?_, ?_⟩
    · rw [h.frames, hlines, if_neg hne, framesFrom, if_neg (not_not.mpr hstrip), if_neg hdata,
        List.append_assoc, List.singleton_append]
    · have hdeltas : deltasOf host (joinData st.data) = (choicesOf event).map deltaOf := by
        rw [deltasOf, hloads]
      rw [List.flatMap_append, foldE_append, h.folded, List.flatMap_singleton, hdeltas]
      exact hfolded
    · intro htruthy
      rcases hfinish htruthy with htruthy | ⟨choice, hchoice, htrue⟩
      · obtain ⟨frame, hframe, hfinishes⟩ := h.finished htruthy
        exact ⟨frame, List.mem_append_left _ hframe, hfinishes⟩
      · exact ⟨joinData st.data, by simp, event, choice, hloads, hchoice, htrue⟩

/-- What the loop returns is complete in the stream. -/
lemma Reads.loop {polls : Nat → Poll} {message : Fields}
    (h : Reads accumulator host bytes before st)
    (hloop : sseLoop accumulator host polls st = .ok message) :
    Complete accumulator host bytes message := by
  fun_induction sseLoop accumulator host polls st generalizing before with
  | case1 st e hturn => cases hloop
  | case2 st result hturn =>
    obtain rfl := Except.ok.inj hloop
    exact h.turn (sseTurn_cases hturn)
  | case3 st turn chatDone progress hturn =>
    obtain ⟨rfl, hdone⟩ := h.turn (sseTurn_cases hturn)
    unfold sseEnd at hloop
    split_ifs at hloop with hfinish
    obtain ⟨htruthy, hchatDone⟩ := Bool.and_eq_true_iff.mp hfinish
    obtain ⟨after, hframes⟩ := hdone hchatDone
    obtain ⟨-, hloop⟩ := except_seq_eq_ok.mp hloop
    obtain ⟨chat, hchat, hloop⟩ := except_bind_eq_ok.mp hloop
    exact ⟨before, _, after, hframes, .done rfl (h.finished htruthy) h.folded (unresent_eq_ok hchat)
      (Except.ok.inj hloop).symm⟩
  | case4 st next hturn ih =>
    obtain ⟨more, hnext⟩ := h.turn (sseTurn_cases hturn)
    exact ih hnext hloop

/-- `read_sse` returns only a message that the stream completes. -/
lemma readSse_complete {polls : Nat → Poll} {arrivals : List Arrival} {message : Fields}
    (h : readSse accumulator host polls arrivals = .ok message) :
    Complete accumulator host (body arrivals) message := by
  have hstart : Reads accumulator host (body arrivals) []
      { reader := { arrivals }, progress := { accumulator := accumulator.start } } :=
    ⟨rfl, rfl, rfl, by simp [Json.truthy]⟩
  exact hstart.loop h

end

end Api

open Api in
/-- The fragments of calls with ids of their own are assembled however they interleave, and a stream
without a complete frame that ends it is refused. -/
theorem streamed_reply :
    (∀ (calls : List Slot) (pieces : List (List Fragment)) (deltas : List Fields),
      Identified calls → Interleaves calls pieces.flatten → List.Forall₂ Carries pieces deltas →
      ∃ chat, foldE (deltas.map .obj) addDelta {} = .ok chat ∧
        (finishMessage chat).get? "tool_calls" = some (.arr (calls.map Slot.call))) ∧
    ∀ (σ : Type) (accumulator : Accumulator σ) (host : SseHost) (polls : Nat → Poll)
      (arrivals : List Arrival),
      (∀ message, readSse accumulator host polls arrivals = .ok message →
        Complete accumulator host (body arrivals) message) ∧
      ((¬ ∃ message, Complete accumulator host (body arrivals) message) →
        ∃ e, readSse accumulator host polls arrivals = .error e) := by
  refine ⟨fun calls pieces deltas hcalls hmix hdeltas => finishMessage_of_deltas hcalls hmix hdeltas,
    fun σ accumulator host polls arrivals => ⟨fun message => readSse_complete, fun hnone => ?_⟩⟩
  cases hread : readSse accumulator host polls arrivals with
  | error e => exact ⟨e, rfl⟩
  | ok message => exact absurd ⟨message, readSse_complete hread⟩ hnone

namespace Api

/-! ### Samples -/

def Fragment.call (f : Fragment) : Fields :=
  [("function", .obj [("arguments", .str f.arguments), ("name", .str f.name)]),
    ("id", (f.id.map Json.str).getD .null), ("index", .int f.index)]

def plainDelta (fragments : List Fragment) : Fields :=
  [("tool_calls", .arr ((fragments.map Fragment.call).map .obj))]

lemma Fragment.spells_call (f : Fragment) : f.Spells f.call where
  index := by simp [call]
  id := by cases hid : f.id <;> simp [call, hid]
  function := .inl ⟨[("arguments", .str f.arguments), ("name", .str f.name)], by simp [call],
    .inl (by simp), .inl (by simp)⟩

lemma carries_plainDelta (fragments : List Fragment) : Carries fragments (plainDelta fragments) where
  content := ⟨"", .inr ⟨rfl, .inl (by simp [plainDelta])⟩⟩
  calls := ⟨fragments.map Fragment.call, .inl (by simp [plainDelta]),
    List.forall₂_map_right_iff.mpr (List.forall₂_same.mpr fun f _ => f.spells_call)⟩

lemma carries_plainDeltas (pieces : List (List Fragment)) :
    List.Forall₂ Carries pieces (pieces.map plainDelta) :=
  List.forall₂_map_right_iff.mpr
    (List.forall₂_same.mpr fun fragments _ => carries_plainDelta fragments)

def sampleCalled (first second : String) : List Slot :=
  [{ index := 0, id := first, name := "list", arguments := "." },
    { index := 1, id := second, name := "read", arguments := "a.txt" }]

def samplePieces (first second : String) : List (List Fragment) :=
  [[⟨1, some second, "read", "a"⟩], [⟨0, some first, "list", "."⟩, ⟨1, none, "", ".txt"⟩]]

lemma sample_interleaves (first second : String) :
    Interleaves (sampleCalled first second) (samplePieces first second).flatten where
  called := by simp [sampleCalled, samplePieces]
  named := by simp [sampleCalled, samplePieces]
  name := by simp [sampleCalled, samplePieces, own, String.join]
  arguments := by simp [sampleCalled, samplePieces, own, String.join]

lemma sampleCalled_identified {first second : String} (h : first ≠ second) (hfirst : first ≠ "")
    (hsecond : second ≠ "") : Identified (sampleCalled first second) where
  sorted := by simp [sampleCalled]
  ids := by simp [sampleCalled, h]
  ne := by simp [sampleCalled, hfirst, hsecond]

def stopText : String := "\x7b\"choices\":[\x7b\"finish_reason\":\"stop\"\x7d]\x7d"

/-- A host that reads this event. -/
def stopHost : SseHost where
  str := fun _ => ""
  loads := fun raw =>
    if raw = ascii stopText then
      some (.obj [("choices", .arr [.obj [("finish_reason", .str "stop")]])])
    else none
  onEvent := fun _ => .ok ()
  errorDetailFilter := none

def stopStream : Bytes :=
  ascii "data: " ++ ascii stopText ++ ascii "\r\n\r\ndata: [DONE]\r\n\r\n"

def inOneRead (bytes : Bytes) (h : bytes ≠ []) : List Arrival := [{ delivery := .bytes ⟨bytes, h⟩ }]

end Api

open Api in
/-- Two interleaved calls, and a stream that ends as it should. -/
theorem streamed_reply_sample :
    (∃ chat, foldE (((samplePieces "a" "b").map plainDelta).map .obj) addDelta {} = .ok chat ∧
      (finishMessage chat).get? "tool_calls" = some (.arr ((sampleCalled "a" "b").map Slot.call))) ∧
    ∃ message, readSse defaultAccumulator stopHost (fun _ => {})
      (inOneRead stopStream (by decide +kernel)) = .ok message ∧
      Complete defaultAccumulator stopHost stopStream message := by
  refine ⟨streamed_reply.1 _ _ _ (sampleCalled_identified (by decide) (by decide) (by decide))
    (sample_interleaves "a" "b") (carries_plainDeltas _), ?_⟩
  obtain ⟨message, hread⟩ := ok_of_isSome (show (readSse defaultAccumulator stopHost (fun _ => {})
    (inOneRead stopStream (by decide +kernel))).toOption.isSome = true by decide +kernel)
  have hcomplete := (streamed_reply.2 Chat defaultAccumulator stopHost (fun _ => {})
    (inOneRead stopStream (by decide +kernel))).1 message hread
  have hbody : body (inOneRead stopStream (by decide +kernel)) = stopStream := List.append_nil _
  rw [hbody] at hcomplete
  exact ⟨message, hread, hcomplete⟩

open Api in
/-- Two calls with one id are refused, and a stream that lacks its last byte, the newline of the
blank line after `[DONE]`, is accepted. -/
theorem streamed_reply_unmet :
    (Interleaves (sampleCalled "a" "a") (samplePieces "a" "a").flatten ∧
      List.Forall₂ Carries (samplePieces "a" "a") ((samplePieces "a" "a").map plainDelta) ∧
      ∃ e, foldE (((samplePieces "a" "a").map plainDelta).map .obj) addDelta {} = .error e) ∧
    ∃ message, readSse defaultAccumulator stopHost (fun _ => {})
      (inOneRead stopStream.dropLast (by decide +kernel)) = .ok message := by
  refine ⟨⟨sample_interleaves "a" "a", carries_plainDeltas _, ?_⟩, ?_⟩
  · exact ⟨.generationUnknown
      "malformed streamed tool call: tool delta reused an id at another index; not resent", by
        rfl⟩
  · exact ok_of_isSome (show (readSse defaultAccumulator stopHost (fun _ => {})
      (inOneRead stopStream.dropLast (by decide +kernel))).toOption.isSome = true by decide +kernel)

end Codey
