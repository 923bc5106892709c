import ImpiAgent.Flows.Received

/-!
# The record says what was received

A path is recorded once and not again, whatever reaches it (`recorded_stale`). Where no save or move
brings other data under a path that is saved, no name breaks its line, no file is taken whose line
is not written yet, and no two calls change one record at the same time (`Clear`), the record has
one line for each file the conversation was given, and the file is what the line says
(`record_faithful`).
-/

namespace Received

open Text (Str str lines isBreak Unbroken)
open Quote (quote digits expect string number)

/-! ## Lines -/

/-- What a text of a line may have in it. -/
def Plain (s : Str) : Prop := ∀ ch ∈ s, Quote.breaks ch = false

instance (s : Str) : Decidable (Plain s) := List.decidableBAll (fun ch => Quote.breaks ch = false) s

def ReceivedFile.Plain (r : ReceivedFile) : Prop :=
  Received.Plain r.path ∧ Received.Plain r.name ∧ Received.Plain r.mime ∧
    Received.Plain r.sha256 ∧ Received.Plain r.receivedAt

instance (r : ReceivedFile) : Decidable r.Plain := inferInstanceAs (Decidable (_ ∧ _))

theorem loads_dumps (r : ReceivedFile) : loads (dumps r) = some r := by
  have hnumber : ∀ rest, number (digits r.size ++ (str ", \"sha256\": " ++ rest)) =
      some (r.size, str ", \"sha256\": " ++ rest) := fun rest => Quote.number_digits rfl
  have hend : string (quote r.receivedAt ++ str "\x7d") = some (r.receivedAt, str "\x7d") :=
    Quote.string_quote ..
  simp only [loads, dumps, Quote.expect_append, Quote.string_quote, hnumber, Option.bind_eq_bind,
    Option.bind_some, hend, if_true]

theorem loads_nil : loads [] = none := rfl

theorem unbroken_dumps {r : ReceivedFile} (h : r.Plain) : Unbroken (dumps r) := by
  obtain ⟨hpath, hname, hmime, hsha, hat⟩ := h
  have hkeys : Unbroken (str "\x7b\"path\": ") ∧ Unbroken (str ", \"name\": ") ∧
      Unbroken (str ", \"mime\": ") ∧ Unbroken (str ", \"size\": ") ∧
      Unbroken (str ", \"sha256\": ") ∧ Unbroken (str ", \"received_at\": ") ∧
      Unbroken (str "\x7d") := by decide
  simp only [dumps, Text.unbroken_append, hkeys, Quote.unbroken_quote hpath,
    Quote.unbroken_quote hname, Quote.unbroken_quote hmime, Quote.unbroken_quote hsha,
    Quote.unbroken_quote hat, Quote.unbroken_digits, and_self]

theorem readRecord_append {r : ReceivedFile} (h : r.Plain) (text : Str) :
    readRecord (dumps r ++ '\n' :: text) = r :: readRecord text := by
  rw [readRecord, Text.lines_append_break rfl, Text.lines_of_unbroken (unbroken_dumps h)]
  rw [List.filterMap_append, List.filterMap_cons, loads_dumps]
  rfl

theorem readRecord_render {rs : List ReceivedFile} (h : ∀ r ∈ rs, r.Plain) :
    readRecord (render rs) = rs := by
  induction rs with
  | nil => rfl
  | cons r rs ih =>
    obtain ⟨hr, hrs⟩ := List.forall_mem_cons.1 h
    have hcons : render (r :: rs) = dumps r ++ '\n' :: render rs := by simp [render]
    rw [hcons, readRecord_append hr, ih hrs]

theorem render_append (rs rs' : List ReceivedFile) :
    render (rs ++ rs') = render rs ++ render rs' := List.flatMap_append

/-! ## Records -/

/-- Every record is the lines of what is read from it. -/
def Core.Written (b : Core) : Prop :=
  ∀ key, b.recordAt key = render (b.entries key) ∧ ∀ r ∈ b.entries key, r.Plain

variable {b b' : Core} {key key' : Str}

theorem Core.entries_eq {rs : List ReceivedFile} (h : b.recordAt key = render rs)
    (hp : ∀ r ∈ rs, r.Plain) : b.entries key = rs := by
  rw [Core.entries, h, readRecord_render hp]

theorem Core.recordAt_append (rs : List ReceivedFile) :
    (b.append key rs).recordAt key' =
      if key' = key then b.recordAt key ++ render rs else b.recordAt key' := by
  unfold Core.append Core.recordAt
  rw [Dict.lookup_assign]
  split <;> rfl

theorem Core.recordAt_rewrite (rs : List ReceivedFile) :
    (b.rewrite key rs).recordAt key' = if key' = key then render rs else b.recordAt key' := by
  unfold Core.rewrite Core.recordAt
  dsimp only
  split
  · next hnil =>
    subst hnil
    rw [Dict.lookup_remove]
    split <;> rfl
  · rw [Dict.lookup_assign]
    split <;> rfl

theorem Core.entries_append {rs : List ReceivedFile} (hw : b.Written) (hp : ∀ r ∈ rs, r.Plain) :
    (b.append key rs).entries key' =
      if key' = key then b.entries key ++ rs else b.entries key' := by
  split
  · next hk =>
    refine Core.entries_eq ?_ ?_
    · rw [Core.recordAt_append, if_pos hk, render_append, ← (hw key).1]
    · intro r hr
      exact (List.mem_append.1 hr).elim ((hw key).2 r) (hp r)
  · next hk => rw [Core.entries, Core.recordAt_append, if_neg hk, Core.entries]

theorem Core.entries_rewrite {rs : List ReceivedFile} (hp : ∀ r ∈ rs, r.Plain) :
    (b.rewrite key rs).entries key' = if key' = key then rs else b.entries key' := by
  split
  · next hk => exact Core.entries_eq (by rw [Core.recordAt_rewrite, if_pos hk]) hp
  · next hk => rw [Core.entries, Core.recordAt_rewrite, if_neg hk, Core.entries]

theorem Core.Written.append {rs : List ReceivedFile} (hw : b.Written) (hp : ∀ r ∈ rs, r.Plain) :
    (b.append key rs).Written := by
  intro key'
  rw [Core.entries_append hw hp, Core.recordAt_append]
  split
  · rw [render_append, ← (hw key).1]
    exact ⟨rfl, fun r hr => (List.mem_append.1 hr).elim ((hw key).2 r) (hp r)⟩
  · exact hw key'

theorem Core.Written.rewrite {rs : List ReceivedFile} (hw : b.Written) (hp : ∀ r ∈ rs, r.Plain) :
    (b.rewrite key rs).Written := by
  intro key'
  rw [Core.entries_rewrite hp, Core.recordAt_rewrite]
  split
  · exact ⟨rfl, hp⟩
  · exact hw key'

/-! ## Paths -/

theorem parent_join {dir name : Str} (h : '/' ∉ name) : parent (dir ++ '/' :: name) = dir := by
  have hrev : (dir ++ '/' :: name).reverse = name.reverse ++ '/' :: dir.reverse := by simp
  have hall : ∀ ch ∈ name.reverse, decide (ch ≠ '/') = true := fun ch hch =>
    decide_eq_true fun heq => h (heq ▸ List.mem_reverse.1 hch)
  rw [parent, hrev, List.dropWhile_append_of_pos hall, List.dropWhile_cons_of_neg (by simp),
    List.tail_cons, List.reverse_reverse]

theorem slash_not_mem_baseName (path : Str) : '/' ∉ baseName path := fun h => by
  have := List.mem_takeWhile_imp (List.mem_reverse.1 h)
  simp at this

theorem slash_not_mem_filename (f : IncomingFile) : '/' ∉ f.filename := fun h => by
  rcases List.mem_append.1 h with h | h
  · exact Attachments.slash_not_mem_safeName _ h
  · rcases List.mem_cons.1 h with h | h
    · exact absurd h (by decide)
    · exact Attachments.slash_not_mem_safeName _ h

variable {c : Settings}

/-- A path in the directory of a conversation. -/
def Stored (c : Settings) (path : Str) : Prop :=
  ∃ agent id name, path = c.conversationDir agent id ++ '/' :: name ∧ '/' ∉ name

/-- What is before and after the first slash. -/
theorem split_slash {a a' x x' : Str} (ha : '/' ∉ a) (ha' : '/' ∉ a')
    (h : a ++ '/' :: x = a' ++ '/' :: x') : a = a' ∧ x = x' := by
  have hr := congrArg List.reverse h
  simp only [List.reverse_append, List.reverse_cons, List.append_assoc, List.singleton_append] at hr
  obtain ⟨hx, hb⟩ := Text.append_cons_inj (by simpa using ha) (by simpa using ha') hr
  exact ⟨List.reverse_injective hb, List.reverse_injective hx⟩

/-- Of the paths in conversations' directories, those found under one are its own. -/
theorem parent_of_within {agent id path : Str} (hs : Stored c path)
    (hw : within (c.conversationDir agent id) path = true) :
    parent path = c.conversationDir agent id := by
  obtain ⟨agent', id', name, rfl, hname⟩ := hs
  rw [parent_join hname]
  obtain ⟨rest, hrest⟩ := List.isPrefixOf_iff_prefix.1 hw
  have hflat : ∀ agent, '/' ∉ Attachments.safeName agent := Attachments.slash_not_mem_safeName
  have hdir : ∀ id, '/' ∉ c.dirName id := fun id => (c.component_dirName id).flat
  simp only [Attachments.AttachmentStore.conversationDir_eq,
    Attachments.AttachmentStore.dirFor, List.append_assoc, List.cons_append, List.nil_append,
    List.append_cancel_left_eq, List.cons.injEq, true_and] at hrest ⊢
  obtain ⟨ha, hrest⟩ := split_slash (hflat agent) (hflat agent') hrest
  obtain ⟨hi, -⟩ := split_slash (hdir id) (hdir id') hrest
  rw [ha, hi]

/-! ## What calls are about -/

def owed (arrived : Arrived) : List (Str × Data) :=
  arrived.filterMap fun x => x.2.map fun data => (x.1.path, data)

def After.pending : After → List (Str × Data)
  | .saved dir f _ arrived => (f.path dir, f.data) :: owed arrived
  | .adopted target data _ => (data.map fun data => (target, data)).toList

/-- What a call has saved or moved, and not returned. -/
def pending : Point → List (Str × Data)
  | .saving _ _ arrived | .writing _ _ _ arrived => owed arrived
  | .listing dir f _ arrived | .evicting dir f _ arrived _ _ _ =>
    (f.path dir, f.data) :: owed arrived
  | .dropping _ _ after | .rewriting _ _ _ after => after.pending
  | .adding _ arrived | .appending _ arrived _ => owed arrived
  | .moving .. | .placing .. | .ended => []

/-- The paths a call has taken, whose lines it is about to drop. -/
def leaving : Point → List Str
  | .evicting _ _ _ _ _ _ gone | .dropping _ gone _ | .rewriting _ gone _ _ => gone
  | _ => []

/-- The paths a call has found recorded, and does not record again. -/
def counted : Point → List Str
  | .appending _ arrived new => (arrived.map (·.1.path)).filter (· ∉ new.map (·.path))
  | _ => []

def allCalls (s : State) (f : Point → Bool) : Bool := s.calls.all fun x => x.all f

/-- A line says the size and the digest of the data. -/
def Matches (c : Settings) (r : ReceivedFile) (data : Data) : Prop :=
  r.size = data.length ∧ r.sha256 = c.hexdigest data

instance (r : ReceivedFile) (data : Data) : Decidable (Matches c r data) :=
  inferInstanceAs (Decidable (_ ∧ _))

/-- Nobody has or is about to return other data under the path. -/
def agrees (s : State) (path : Str) (data : Data) : Bool :=
  (s.store.returned.lookup path).all (fun d => decide (d = data)) &&
    allCalls s fun k => (pending k).all fun x => decide (x.1 = path → x.2 = data)

/-- No call has yet to return the path. -/
def settled (s : State) (path : Str) : Bool :=
  allCalls s fun k => (pending k).all fun x => decide (x.1 ≠ path)

/-- The next access of a call finds things as the store takes them to be. -/
def clearAct (c : Settings) (s : State) : Point → Bool
  | .saving dir (f :: _) _ =>
    -- a file of the size is a redelivery
    decide (c.maxBytes < f.data.length) ||
      !(s.store.fileAt (f.path dir)).any (fun x => decide (x.data.length = f.data.length)) ||
      (s.store.fileAt (f.path dir)).any (fun x => decide (x.data = f.data)) &&
        agrees s (f.path dir) f.data
  | .writing dir f _ _ => agrees s (f.path dir) f.data
  | .evicting _ _ _ _ held (path :: _) gone =>
    decide (held ≤ c.conversationMaxBytes) ||
      match s.store.fileAt path with
      | none => decide (gone = [])
      | some _ => settled s path
  | .dropping key gone (.adopted _ data _) =>
    match data with
    | none => (s.store.entries key).all fun r => decide (r.path ∉ gone)
    | some data => (s.store.entries key).any fun r => decide (r.path ∈ gone ∧ Matches c r data)
  | .rewriting key gone staying _ =>
    decide ((s.store.entries key).filter (·.path ∉ gone) = staying) &&
      gone.all fun path => decide (s.store.returned.lookup path = none) &&
        allCalls s fun k => decide (path ∉ counted k)
  | .adding key arrived =>
    arrived.all fun x => (s.store.entries key).all fun r =>
      decide (r.path = x.1.path → r.size = x.1.size ∧ r.sha256 = x.1.sha256)
  | .appending key _ new =>
    (new.all fun r => decide (r.Plain ∧ r.path ∉ (s.store.entries key).map (·.path))) &&
      decide (new.map (·.path)).Nodup
  | .placing source target same =>
    match s.store.fileAt source with
    | none => true
    | some x =>
      settled s source &&
        (match s.store.returned.lookup source with
        | some data => agrees s target data &&
          (!same || (s.store.fileAt target).any fun t => decide (t.data = data))
        | none => true) &&
        (same || decide (source ∈ s.store.touched) || agrees s target x.data)
  | _ => true

def clear (c : Settings) (s : State) : Label → Bool
  | .step i =>
    match s.calls[i]? with
    | some (some k) => clearAct c s k
    | _ => true
  | _ => true

/-- No save or move brings other data under a path that is saved or recorded, a call saves a path
once and its lines are not broken, no file is taken before it is recorded, and a record is as it was
read when it is written. -/
def Clear (c : Settings) (s : State) (e : Label) : Prop := clear c s e = true

/-- The path was returned with the data, or is about to be. -/
def Owes (s : State) (path : Str) (data : Data) : Prop :=
  s.store.returned.lookup path = some data ∨ ∃ i k, s.At i k ∧ (path, data) ∈ pending k

variable {s s' : State} {i : Nat} {k k' : Point} {path : Str} {data : Data}

theorem allCalls_iff {f : Point → Bool} :
    allCalls s f = true ↔ ∀ i k, s.At i k → f k = true := by
  rw [allCalls, List.all_eq_true]
  constructor
  · intro h i k hk
    simpa using h _ hk.mem
  · intro h x hx
    cases x with
    | none => rfl
    | some k =>
      obtain ⟨i, hi⟩ := Pool.at_of_mem hx
      simpa using h i k hi

theorem agrees_iff : agrees s path data = true ↔ ∀ d, Owes s path d → d = data := by
  rw [agrees, Bool.and_eq_true, allCalls_iff]
  constructor
  · rintro ⟨hret, hcalls⟩ d (h | ⟨i, k, hk, hp⟩)
    · rw [h] at hret
      exact of_decide_eq_true hret
    · exact of_decide_eq_true (List.all_eq_true.1 (hcalls i k hk) _ hp) rfl
  · intro h
    refine ⟨?_, fun i k hk => List.all_eq_true.2 fun x hx => decide_eq_true fun hxp => ?_⟩
    · cases hl : s.store.returned.lookup path with
      | none => rfl
      | some d => exact decide_eq_true (h d (.inl hl))
    · exact h x.2 (.inr ⟨i, k, hk, hxp ▸ hx⟩)

theorem settled_iff : settled s path = true ↔
    ∀ i k, s.At i k → ∀ d, (path, d) ∉ pending k := by
  rw [settled, allCalls_iff]
  refine forall_congr' fun i => forall_congr' fun k => forall_congr' fun _ => ?_
  rw [List.all_eq_true]
  constructor
  · intro h d hd
    exact of_decide_eq_true (h _ hd) rfl
  · intro h x hx
    exact decide_eq_true fun hxp => h x.2 (hxp ▸ hx)

/-- After a step of one call, what is owed is returned, or this call's, or was owed before. -/
theorem owes_put (hk : s.At i k) (h : Owes (s.put i b' k') path data) :
    b'.returned.lookup path = some data ∨ (path, data) ∈ pending k' ∨ Owes s path data := by
  rcases h with h | ⟨j, l, hl, hp⟩
  · exact .inl h
  · rcases (Pool.at_put hk).1 hl with ⟨-, rfl⟩ | ⟨-, hl⟩
    · exact .inr (.inl hp)
    · exact .inr (.inr (.inr ⟨j, l, hl, hp⟩))

/-! ## The invariant -/

/-- Lines a call is to write, of files saved in the directory of the record. -/
def Recordable (c : Settings) (key : Str) (arrived : Arrived) : Prop :=
  ∀ x ∈ arrived, Stored c x.1.path ∧ c.recordPath (parent x.1.path) = key ∧
    ∃ data, x.2 = some data ∧ Matches c x.1 data

/-- Lines of the paths a call drops are in this record only. -/
def Gone (c : Settings) (key : Str) (gone : List Str) : Prop :=
  ∀ path ∈ gone, Stored c path → c.recordPath (parent path) = key

def Conversation (c : Settings) (dir : Str) : Prop := ∃ agent id, dir = c.conversationDir agent id

def After.Fit (c : Settings) (gone : List Str) : After → Prop
  | .saved dir _ _ arrived => Conversation c dir ∧ Recordable c (c.recordPath dir) arrived
  | .adopted target data moved => Stored c target ∧ (∃ source, gone = [source]) ∧
    ∀ r ∈ moved, r.path = target ∧ ∃ d, data = some d ∧ Matches c r d

/-- What holds at a point of a call. -/
def Fit (c : Settings) (b : Core) : Point → Prop
  | .saving dir _ arrived | .writing dir _ _ arrived | .listing dir _ _ arrived =>
    Conversation c dir ∧ Recordable c (c.recordPath dir) arrived
  | .evicting dir _ _ arrived _ queue gone =>
    Conversation c dir ∧ Recordable c (c.recordPath dir) arrived ∧
      ∀ path ∈ queue ++ gone, within dir path = true
  | .dropping key gone after | .rewriting key gone _ after => Gone c key gone ∧ after.Fit c gone
  | .adding key arrived => Recordable c key arrived
  | .appending key arrived new => Recordable c key arrived ∧
    (∀ r ∈ new, r ∈ arrived.map Prod.fst) ∧
    ∀ x ∈ arrived, x.1.path ∉ new.map (·.path) →
      ∃ r ∈ b.entries key, r.path = x.1.path ∧ ∀ data, x.2 = some data → Matches c r data
  | .moving source target | .placing source target _ => Stored c target ∧ source ≠ target
  | .ended => True

/-- The records say what was returned, and nothing else but what is being dropped; the files are
what was saved. -/
structure Sound (c : Settings) (s : State) : Prop where
  written : s.store.Written
  once : ∀ key, ((s.store.entries key).map (·.path)).Nodup
  placed : ∀ key, ∀ r ∈ s.store.entries key,
    Stored c r.path ∧ c.recordPath (parent r.path) = key
  listed : ∀ path data, s.store.returned.lookup path = some data →
    ∃ r ∈ s.store.list c (parent path), r.path = path ∧ Matches c r data
  agree : ∀ path d d', Owes s path d → Owes s path d' → d = d'
  kept : ∀ path data, Owes s path data → Stored c path ∧ path ∈ s.store.live ∧
    (path ∉ s.store.touched → ∃ x, s.store.fileAt path = some x ∧ x.data = data)
  known : ∀ key, ∀ r ∈ s.store.entries key, (∃ d, s.store.returned.lookup r.path = some d) ∨
    ∃ i k, s.At i k ∧ r.path ∈ leaving k
  calls : ∀ i k, s.At i k → Fit c s.store k

theorem entries_of_records (h : b'.records = b.records) (key : Str) :
    b'.entries key = b.entries key := by
  rw [Core.entries, Core.recordAt, h, Core.entries, Core.recordAt]

theorem Core.Written.same (hw : b.Written) (h : b'.records = b.records) : b'.Written := by
  intro key
  rw [entries_of_records h, Core.recordAt, h]
  exact hw key

/-- A point of a call minds only the lines it has found. -/
theorem Fit.of (h : Fit c b k)
    (hsub : ∀ key, ∀ r ∈ b.entries key, r.path ∈ counted k → r ∈ b'.entries key) : Fit c b' k := by
  cases k with
  | appending key arrived new =>
    obtain ⟨hrec, hnew, hfound⟩ := h
    refine ⟨hrec, hnew, fun x hx hxn => ?_⟩
    obtain ⟨r, hr, hp, hm⟩ := hfound x hx hxn
    refine ⟨r, hsub key r hr ?_, hp, hm⟩
    rw [hp]
    exact List.mem_filter.2 ⟨List.mem_map_of_mem hx, decide_eq_true hxn⟩
  | _ => exact h

/-- A step that leaves the records, or where one stays and what calls have found is left. -/
theorem Sound.fits (h : Sound c s) (hk : s.At i k) (hfit : Fit c b' k')
    (hsub : ∀ j l, j ≠ i → s.At j l → ∀ key, ∀ r ∈ s.store.entries key, r.path ∈ counted l →
      r ∈ b'.entries key) :
    ∀ j l, (s.put i b' k').At j l → Fit c b' l := by
  intro j l hl
  rcases (Pool.at_put hk).1 hl with ⟨-, rfl⟩ | ⟨hne, hl⟩
  · exact hfit
  · exact (h.calls j l hl).of (hsub j l hne hl)

/-- A line is known still where this call drops what it did, and returned paths stay so. -/
theorem Sound.knows (h : Sound c s) (hk : s.At i k) {r : ReceivedFile} {key : Str}
    (hr : r ∈ s.store.entries key)
    (hret : ∀ d, s.store.returned.lookup r.path = some d →
      (∃ d, b'.returned.lookup r.path = some d) ∨ r.path ∈ leaving k')
    (hleave : r.path ∈ leaving k →
      (∃ d, b'.returned.lookup r.path = some d) ∨ r.path ∈ leaving k') :
    (∃ d, b'.returned.lookup r.path = some d) ∨
      ∃ j l, (s.put i b' k').At j l ∧ r.path ∈ leaving l := by
  have hself : (∃ d, b'.returned.lookup r.path = some d) ∨ r.path ∈ leaving k' →
      (∃ d, b'.returned.lookup r.path = some d) ∨
        ∃ j l, (s.put i b' k').At j l ∧ r.path ∈ leaving l := fun h =>
    h.imp_right fun h => ⟨i, k', Pool.at_put_self hk, h⟩
  rcases h.known key r hr with ⟨d, hd⟩ | ⟨j, l, hl, hmem⟩
  · exact hself (hret d hd)
  · by_cases hj : j = i
    · subst hj
      exact hself (hleave (hk.eq hl ▸ hmem))
    · exact .inr ⟨j, l, Pool.at_put_ne hk hl hj, hmem⟩

/-- A step that changes nothing on the disk. -/
theorem Sound.quiet (h : Sound c s) (hk : s.At i k)
    (hpend : ∀ x ∈ pending k', x ∈ pending k)
    (hleave : ∀ key, ∀ r ∈ s.store.entries key, r.path ∈ leaving k → r.path ∈ leaving k')
    (hfit : Fit c s.store k') : Sound c (s.put i s.store k') := by
  have howes : ∀ path data, Owes (s.put i s.store k') path data → Owes s path data := by
    intro path data ho
    rcases owes_put hk ho with hr | hp | ho
    · exact .inl hr
    · exact .inr ⟨i, k, hk, hpend _ hp⟩
    · exact ho
  exact {
    written := h.written
    once := h.once
    placed := h.placed
    listed := h.listed
    agree := fun path d d' hd hd' => h.agree path d d' (howes _ _ hd) (howes _ _ hd')
    kept := fun path data ho => h.kept path data (howes _ _ ho)
    known := fun key r hr => h.knows hk hr (fun d hd => .inl ⟨d, hd⟩)
      fun hl => .inr (hleave key r hr hl)
    calls := h.fits hk hfit fun _ _ _ _ _ _ hr _ => hr }

/-- The store has a file at a path, where it agrees with what is owed there. -/
theorem Sound.keep (h : Sound c s) (path : Str) (data : Option Data) (hk : s.At i k)
    (hrec : b'.records = s.store.records) (hret : b'.returned = s.store.returned)
    (hpend : ∀ q d, (q, d) ∈ pending k' → (q, d) ∈ pending k ∨ q = path ∧ data = some d)
    (hother : ∀ q, q ≠ path → b'.fileAt q = s.store.fileAt q ∧
      (q ∈ b'.touched ↔ q ∈ s.store.touched))
    (hlive : ∀ q ∈ s.store.live, q ∈ b'.live)
    (hnew : ∀ d, data = some d → Stored c path ∧ path ∈ b'.live ∧ ∀ d', Owes s path d' → d' = d)
    (hfile : ∀ d, Owes s path d ∨ data = some d → path ∉ b'.touched →
      ∃ x, b'.fileAt path = some x ∧ x.data = d)
    (hleave : ∀ key, ∀ r ∈ s.store.entries key, r.path ∈ leaving k → r.path ∈ leaving k')
    (hfit : Fit c b' k') : Sound c (s.put i b' k') := by
  have hentries := entries_of_records hrec
  have howes : ∀ q d, Owes (s.put i b' k') q d → Owes s q d ∨ q = path ∧ data = some d := by
    intro q d ho
    rcases owes_put hk ho with hr | hp | ho
    · exact .inl (.inl (hret ▸ hr))
    · exact (hpend q d hp).imp_left fun hp => .inr ⟨i, k, hk, hp⟩
    · exact .inl ho
  exact {
    written := h.written.same hrec
    once := fun key => by
      rw [Pool.put_store, hentries]
      exact h.once key
    placed := fun key r hr => h.placed key r (hentries key ▸ hr)
    listed := fun q d hq => by
      rw [Pool.put_store, Core.list, hentries]
      exact h.listed q d (hret ▸ hq)
    agree := fun q d d' hd hd' => by
      rcases howes q d hd with hd | ⟨rfl, hd⟩ <;> rcases howes q d' hd' with hd' | ⟨hq, hd'⟩
      · exact h.agree q d d' hd hd'
      · exact (hnew d' hd').2.2 d (hq ▸ hd)
      · exact ((hnew d hd).2.2 d' hd').symm
      · exact Option.some.inj (hd.symm.trans hd')
    kept := fun q d ho => by
      by_cases hq : q = path
      · subst hq
        have ho := (howes q d ho).imp_right And.right
        refine ⟨?_, ?_, hfile d ho⟩
        · exact ho.elim (fun ho => (h.kept q d ho).1) fun hd => (hnew d hd).1
        · exact ho.elim (fun ho => hlive q (h.kept q d ho).2.1) fun hd => (hnew d hd).2.1
      · have ho := (howes q d ho).resolve_right fun hne => hq hne.1
        obtain ⟨hst, hl, hx⟩ := h.kept q d ho
        refine ⟨hst, hlive q hl, fun ht => ?_⟩
        show ∃ x, b'.fileAt q = some x ∧ x.data = d
        rw [(hother q hq).1]
        exact hx fun ht' => ht ((hother q hq).2.2 ht')
    known := fun key r hr => by
      have hr' : r ∈ s.store.entries key := hentries key ▸ hr
      refine h.knows hk hr' (fun d hd => .inl ⟨d, hret.symm ▸ hd⟩) fun hl => ?_
      exact .inr (hleave key r hr' hl)
    calls := h.fits hk hfit fun _ _ _ _ key r hr _ => by rwa [hentries key] }

/-- The store takes a file that no call is about to return, and drops its line later. -/
theorem Sound.take (h : Sound c s) (hk : s.At i k)
    (hsettled : ∀ j l, s.At j l → ∀ d, (path, d) ∉ pending l)
    (hpend : ∀ x ∈ pending k', x ∈ pending k)
    (hleave : ∀ q ∈ leaving k, q ∈ leaving k') (hgone : path ∈ leaving k')
    (hfit : Fit c (s.store.take path) k') : Sound c (s.put i (s.store.take path) k') := by
  have hlookup : ∀ q d, (s.store.take path).returned.lookup q = some d →
      q ≠ path ∧ s.store.returned.lookup q = some d := by
    intro q d hd
    have hd : (Dict.remove path s.store.returned).lookup q = some d := hd
    rw [Dict.lookup_remove] at hd
    split at hd
    · cases hd
    · next hq => exact ⟨hq, hd⟩
  have howes : ∀ q d, Owes (s.put i (s.store.take path) k') q d → q ≠ path ∧ Owes s q d := by
    intro q d ho
    have hne : Owes s q d → (∀ j l, s.At j l → (q, d) ∈ pending l → q ≠ path) := by
      rintro - j l hl hp rfl
      exact hsettled j l hl d hp
    rcases ho with hr | ⟨j, l, hl, hp⟩
    · exact ⟨(hlookup q d hr).1, .inl (hlookup q d hr).2⟩
    · rcases (Pool.at_put hk).1 hl with ⟨-, rfl⟩ | ⟨-, hl⟩
      · have ho : Owes s q d := .inr ⟨i, k, hk, hpend _ hp⟩
        exact ⟨hne ho i k hk (hpend _ hp), ho⟩
      · have ho : Owes s q d := .inr ⟨j, l, hl, hp⟩
        exact ⟨hne ho j l hl hp, ho⟩
  exact {
    written := h.written.same rfl
    once := h.once
    placed := h.placed
    listed := fun q d hq => h.listed q d (hlookup q d hq).2
    agree := fun q d d' hd hd' => h.agree q d d' (howes q d hd).2 (howes q d' hd').2
    kept := fun q d ho => by
      obtain ⟨hne, ho⟩ := howes q d ho
      obtain ⟨hst, hl, hx⟩ := h.kept q d ho
      refine ⟨hst, List.mem_filter.2 ⟨hl, decide_eq_true hne⟩, fun ht => ?_⟩
      obtain ⟨x, hx, hd⟩ := hx ht
      refine ⟨x, ?_, hd⟩
      show (Dict.remove path s.store.disk).lookup q = some x
      rw [Dict.lookup_remove, if_neg hne]
      exact hx
    known := fun key r hr => by
      refine h.knows hk hr (fun d hd => ?_) fun hl => .inr (hleave _ hl)
      by_cases hq : r.path = path
      · exact .inr (hq ▸ hgone)
      · refine .inl ⟨d, ?_⟩
        show (Dict.remove path s.store.returned).lookup r.path = some d
        rw [Dict.lookup_remove, if_neg hq]
        exact hd
    calls := h.fits hk hfit fun _ _ _ _ _ _ hr _ => hr }

/-- A record is written anew as it was read, without the lines of what was taken. -/
theorem Sound.rewrite (h : Sound c s) (hk : s.At i k) {gone : List Str}
    {staying : List ReceivedFile} (hleave : leaving k = gone) (hgone : Gone c key gone)
    (hstay : (s.store.entries key).filter (·.path ∉ gone) = staying)
    (hfree : ∀ q ∈ gone, s.store.returned.lookup q = none ∧ ∀ j l, s.At j l → q ∉ counted l)
    (hpend : ∀ x ∈ pending k', x ∈ pending k)
    (hfit : Fit c (s.store.rewrite key staying) k') :
    Sound c (s.put i (s.store.rewrite key staying) k') := by
  have hplain : ∀ r ∈ staying, r.Plain := by
    intro r hr
    rw [← hstay] at hr
    exact (h.written key).2 r (List.mem_filter.1 hr).1
  have hentries : ∀ key₁, (s.store.rewrite key staying).entries key₁ =
      if key₁ = key then (s.store.entries key).filter (·.path ∉ gone) else s.store.entries key₁ :=
    fun key₁ => by rw [Core.entries_rewrite hplain, hstay]
  have hmem : ∀ key₁ r, r ∈ (s.store.rewrite key staying).entries key₁ ↔
      r ∈ s.store.entries key₁ ∧ (key₁ = key → r.path ∉ gone) := by
    intro key₁ r
    rw [hentries]
    split
    · next heq => simp [heq]
    · next hne => exact ⟨fun hr => ⟨hr, fun heq => absurd heq hne⟩, And.left⟩
  have howes : ∀ q d, Owes (s.put i (s.store.rewrite key staying) k') q d → Owes s q d := by
    intro q d ho
    rcases owes_put hk ho with hr | hp | ho
    · exact .inl hr
    · exact .inr ⟨i, k, hk, hpend _ hp⟩
    · exact ho
  exact {
    written := h.written.rewrite hplain
    once := fun key₁ => by
      rw [Pool.put_store, hentries]
      split
      · exact (h.once key).sublist (List.filter_sublist.map _)
      · exact h.once key₁
    placed := fun key₁ r hr => h.placed key₁ r ((hmem key₁ r).1 hr).1
    listed := fun q d hq => by
      obtain ⟨r, hr, hp, hm⟩ := h.listed q d hq
      refine ⟨r, (hmem _ r).2 ⟨hr, fun _ hg => ?_⟩, hp, hm⟩
      have hnone : s.store.returned.lookup q = none := hp ▸ (hfree r.path hg).1
      have hsome : s.store.returned.lookup q = some d := hq
      exact nomatch hnone.symm.trans hsome
    agree := fun q d d' hd hd' => h.agree q d d' (howes q d hd) (howes q d' hd')
    kept := fun q d ho => h.kept q d (howes q d ho)
    known := fun key₁ r hr => by
      obtain ⟨hr, hg⟩ := (hmem key₁ r).1 hr
      refine h.knows hk hr (fun d hd => .inl ⟨d, hd⟩) fun hl => ?_
      -- the lines of what was taken were all in this record
      rw [hleave] at hl
      have hkey := hgone _ hl (h.placed key₁ r hr).1
      exact absurd hl (hg ((h.placed key₁ r hr).2.symm.trans hkey))
    calls := h.fits hk hfit fun j l _ hl key₁ r hr hc =>
      (hmem key₁ r).2 ⟨hr, fun _ hg => (hfree _ hg).2 j l hl hc⟩ }

/-! ## Returning -/

theorem lookup_ret {ps : List (Str × Option Data)} {q : Str} {d : Data}
    (h : (b.ret ps).returned.lookup q = some d) :
    b.returned.lookup q = some d ∨ (q, some d) ∈ ps := by
  have hfold : ∀ (ps : List (Str × Option Data)) (returned : List (Str × Data)),
      (ps.foldl (fun returned x =>
        match x.2 with
        | some data => if x.1 ∈ b.live then Dict.assign x.1 data returned else returned
        | none => returned) returned).lookup q = some d →
      returned.lookup q = some d ∨ (q, some d) ∈ ps := by
    intro ps
    induction ps with
    | nil => exact fun _ h => .inl h
    | cons x ps ih =>
      intro returned h
      obtain ⟨p, data⟩ := x
      rw [List.foldl_cons] at h
      rcases ih _ h with h | h
      · cases data with
        | none => exact .inl h
        | some data =>
          dsimp only at h
          split at h
          · rw [Dict.lookup_assign] at h
            split at h
            · next hq =>
              cases h
              exact .inr (hq ▸ List.mem_cons_self)
            · exact .inl h
          · exact .inl h
      · exact .inr (List.mem_cons_of_mem _ h)
  exact hfold ps _ h

theorem lookup_ret_isSome {ps : List (Str × Option Data)} {q : Str}
    (h : (∃ d, b.returned.lookup q = some d) ∨ q ∈ b.live ∧ ∃ d, (q, some d) ∈ ps) :
    ∃ d, (b.ret ps).returned.lookup q = some d := by
  have hfold : ∀ (ps : List (Str × Option Data)) (returned : List (Str × Data)),
      (∃ d, returned.lookup q = some d) ∨ q ∈ b.live ∧ (∃ d, (q, some d) ∈ ps) →
      ∃ d, (ps.foldl (fun returned x =>
        match x.2 with
        | some data => if x.1 ∈ b.live then Dict.assign x.1 data returned else returned
        | none => returned) returned).lookup q = some d := by
    intro ps
    induction ps with
    | nil =>
      rintro returned (h | ⟨-, d, h⟩)
      · exact h
      · cases h
    | cons x ps ih =>
      intro returned h
      obtain ⟨p, data⟩ := x
      rw [List.foldl_cons]
      refine ih _ ?_
      rcases h with ⟨d, hd⟩ | ⟨hl, d, hd⟩
      · refine .inl ?_
        cases data with
        | none => exact ⟨d, hd⟩
        | some data =>
          dsimp only
          split
          · rw [Dict.lookup_assign]
            split
            · exact ⟨data, rfl⟩
            · exact ⟨d, hd⟩
          · exact ⟨d, hd⟩
      · rcases List.mem_cons.1 hd with heq | hd
        · cases heq
          refine .inl ⟨d, ?_⟩
          dsimp only
          rw [if_pos hl, Dict.lookup_assign, if_pos rfl]
        · exact .inr ⟨hl, d, hd⟩
  exact hfold ps _ h

theorem mem_owed {arrived : Arrived} {q : Str} {d : Data} :
    (q, d) ∈ owed arrived ↔ ∃ x ∈ arrived, x.1.path = q ∧ x.2 = some d := by
  simp only [owed, List.mem_filterMap, Option.map_eq_some_iff, Prod.mk.injEq]
  constructor
  · rintro ⟨x, hx, d', hd, rfl, rfl⟩
    exact ⟨x, hx, rfl, hd⟩
  · rintro ⟨x, hx, rfl, hd⟩
    exact ⟨x, hx, d, hd, rfl, rfl⟩

theorem mem_paths {arrived : Arrived} {q : Str} {d : Data} :
    (q, some d) ∈ paths arrived ↔ (q, d) ∈ owed arrived := by
  rw [mem_owed]
  simp [paths, Prod.ext_iff]

/-- A call returns, with its new lines in the record. -/
theorem Sound.ret (h : Sound c s) (hk : s.At i k) {arrived : Arrived}
    (hpend : pending k = owed arrived) (hleave : leaving k = [])
    (hsame : b.disk = s.store.disk ∧ b.live = s.store.live ∧ b.touched = s.store.touched ∧
      b.returned = s.store.returned)
    (hwritten : b.Written) (honce : ∀ key, ((b.entries key).map (·.path)).Nodup)
    (hplaced : ∀ key, ∀ r ∈ b.entries key, Stored c r.path ∧ c.recordPath (parent r.path) = key)
    (hsub : ∀ key, ∀ r ∈ s.store.entries key, r ∈ b.entries key)
    (hnew : ∀ key, ∀ r ∈ b.entries key, r ∈ s.store.entries key ∨
      ∃ d, (r.path, d) ∈ owed arrived)
    (hfound : ∀ q d, (q, d) ∈ owed arrived →
      ∃ r ∈ b.list c (parent q), r.path = q ∧ Matches c r d) :
    Sound c (s.put i (b.ret (paths arrived)) .ended) := by
  obtain ⟨hdisk, hlive, htouched, hreturned⟩ := hsame
  have hret : ∀ q d, (b.ret (paths arrived)).returned.lookup q = some d →
      s.store.returned.lookup q = some d ∨ (q, d) ∈ owed arrived := by
    intro q d hq
    rw [← hreturned, ← mem_paths]
    exact lookup_ret hq
  have hmono : ∀ q, (∃ d, s.store.returned.lookup q = some d) →
      ∃ d, (b.ret (paths arrived)).returned.lookup q = some d := by
    intro q hq
    exact lookup_ret_isSome (.inl (hreturned.symm ▸ hq))
  have howed : ∀ q d, (q, d) ∈ owed arrived → Owes s q d := fun q d hq =>
    .inr ⟨i, k, hk, hpend.symm ▸ hq⟩
  have howes : ∀ q d, Owes (s.put i (b.ret (paths arrived)) .ended) q d → Owes s q d := by
    intro q d ho
    rcases owes_put hk ho with hr | hp | ho
    · exact (hret q d hr).elim .inl (howed q d)
    · cases hp
    · exact ho
  exact {
    written := hwritten
    once := honce
    placed := hplaced
    listed := fun q d hq => by
      rcases hret q d hq with hq | hq
      · obtain ⟨r, hr, hp, hm⟩ := h.listed q d hq
        exact ⟨r, hsub _ r hr, hp, hm⟩
      · exact hfound q d hq
    agree := fun q d d' hd hd' => h.agree q d d' (howes q d hd) (howes q d' hd')
    kept := fun q d ho => by
      show _ ∧ q ∈ b.live ∧ (q ∉ b.touched → ∃ x, b.disk.lookup q = some x ∧ x.data = d)
      rw [hdisk, hlive, htouched]
      exact h.kept q d (howes q d ho)
    known := fun key r hr => by
      rcases hnew key r hr with hr | ⟨d, hd⟩
      · refine h.knows hk hr (fun d hd => .inl (hmono _ ⟨d, hd⟩)) fun hl => ?_
        rw [hleave] at hl
        cases hl
      · refine .inl (lookup_ret_isSome (.inr ⟨?_, d, mem_paths.2 hd⟩))
        rw [hlive]
        exact (h.kept _ d (howed _ d hd)).2.1
    calls := h.fits hk trivial fun _ _ _ _ key r hr _ => hsub key r hr }

/-! ## A save -/

section Save

variable {dir : Str} {f : IncomingFile} {files : List IncomingFile} {arrived : Arrived}
  {gone : List Str}

theorem stored_path (h : Conversation c dir) : Stored c (f.path dir) := by
  obtain ⟨agent, id, rfl⟩ := h
  exact ⟨agent, id, f.filename, rfl, slash_not_mem_filename f⟩

theorem parent_path : parent (f.path dir) = dir := parent_join (slash_not_mem_filename f)

theorem Recordable.snoc (h : Recordable c (c.recordPath dir) arrived) (hd : Conversation c dir) :
    Recordable c (c.recordPath dir) (arrived ++ [(c.arrival dir f, some f.data)]) := by
  intro x hx
  rcases List.mem_append.1 hx with hx | hx
  · exact h x hx
  · obtain rfl := List.mem_singleton.1 hx
    exact ⟨stored_path hd, congrArg c.recordPath parent_path, f.data, rfl, rfl, rfl⟩

theorem gone_of_within (hd : Conversation c dir) (h : ∀ q ∈ gone, within dir q = true) :
    Gone c (c.recordPath dir) gone := by
  obtain ⟨agent, id, rfl⟩ := hd
  exact fun q hq hs => congrArg c.recordPath (parent_of_within hs (h q hq))

theorem owed_snoc {x : Str × Data} : x ∈ owed (arrived ++ [(c.arrival dir f, some f.data)]) ↔
    x = (f.path dir, f.data) ∨ x ∈ owed arrived := by
  have hone : owed [(c.arrival dir f, some f.data)] = [(f.path dir, f.data)] := rfl
  rw [owed, List.filterMap_append, List.mem_append, or_comm]
  exact or_congr_left (by rw [← List.mem_singleton, ← hone, owed])

/-- Where the point after a file is saved is told apart by what the call goes on with alone. -/
structure Saves (c : Settings) (dir : Str) (f : IncomingFile) (arrived : Arrived)
    (gone : List Str) (k : Point) : Prop where
  fit : Conversation c dir → Recordable c (c.recordPath dir) arrived →
    (∀ q ∈ gone, within dir q = true) → ∀ b, Fit c b k
  pending : ∀ x, x ∈ Received.pending k ↔ x = (f.path dir, f.data) ∨ x ∈ owed arrived
  leaving : Received.leaving k = gone

theorem saves_saved : Saves c dir f arrived [] (saved c dir f files arrived) :=
  ⟨fun hd ha _ _ => ⟨hd, ha.snoc hd⟩, fun _ => owed_snoc, rfl⟩

theorem saves_written : Saves c dir f arrived [] (written c dir f files arrived) := by
  unfold written
  split
  · exact saves_saved
  · exact ⟨fun hd ha _ _ => ⟨hd, ha⟩, fun _ => List.mem_cons, rfl⟩

theorem saves_evicted : Saves c dir f arrived gone (evicted c dir f files arrived gone) := by
  unfold evicted
  split
  · next hnil =>
    subst hnil
    exact saves_saved
  · exact ⟨fun hd ha hg _ => ⟨gone_of_within hd hg, hd, ha⟩, fun _ => List.mem_cons, rfl⟩

/-- The bytes of a save are at its path. -/
theorem Sound.saves (h : Sound c s) (hk : s.At i k) (hpend : pending k = owed arrived)
    (hleave : leaving k = []) (hd : Conversation c dir)
    (ha : Recordable c (c.recordPath dir) arrived)
    (hrec : b'.records = s.store.records) (hret : b'.returned = s.store.returned)
    (hother : ∀ q, q ≠ f.path dir → b'.fileAt q = s.store.fileAt q)
    (hlive : b'.live = f.path dir :: s.store.live)
    (htouched : b'.touched = s.store.touched.filter (· ≠ f.path dir))
    (hfile : ∃ x, b'.fileAt (f.path dir) = some x ∧ x.data = f.data)
    (hagree : agrees s (f.path dir) f.data = true) :
    Sound c (s.put i b' (Received.written c dir f files arrived)) := by
  have hsaves : Saves c dir f arrived [] (Received.written c dir f files arrived) := saves_written
  refine h.keep (f.path dir) (some f.data) hk hrec hret ?_ ?_ ?_ ?_ ?_ ?_ ?_
  · intro q d hq
    rcases (hsaves.pending _).1 hq with heq | hq
    · obtain ⟨rfl, rfl⟩ := Prod.mk.inj heq
      exact .inr ⟨rfl, rfl⟩
    · exact .inl (hpend ▸ hq)
  · exact fun q hq => ⟨hother q hq, by simp [htouched, hq]⟩
  · exact fun q hq => hlive ▸ List.mem_cons_of_mem _ hq
  · rintro d ⟨⟩
    exact ⟨stored_path hd, hlive ▸ List.mem_cons_self, agrees_iff.1 hagree⟩
  · rintro d hd -
    obtain ⟨x, hx, hxd⟩ := hfile
    refine ⟨x, hx, hxd.trans ?_⟩
    rcases hd with hd | ⟨⟨⟩⟩
    · exact (agrees_iff.1 hagree d hd).symm
    · rfl
  · intro key r _ hl
    rw [hleave] at hl
    cases hl
  · exact hsaves.fit hd ha (fun _ hq => nomatch hq) b'

theorem sound_saving (h : Sound c s) (hk : s.At i (.saving dir files arrived))
    (hc : clearAct c s (.saving dir files arrived) = true)
    (hn : act c s.store (.saving dir files arrived) = some (b', k')) :
    Sound c (s.put i b' k') := by
  have hfit : Conversation c dir ∧ Recordable c (c.recordPath dir) arrived := h.calls i _ hk
  cases files with
  | nil =>
    cases hn
    refine h.quiet hk ?_ (fun _ _ _ hl => nomatch hl) ?_
    · intro x hx
      split at hx
      · cases hx
      · exact hx
    · split
      · trivial
      · exact hfit.2
  | cons f files =>
    simp only [act] at hn
    split at hn
    · cases hn
      exact h.quiet hk (fun _ hx => hx) (fun _ _ _ hl => nomatch hl) hfit
    · next hsmall =>
      split at hn
      · next hsame =>
        cases hn
        have hc : (s.store.fileAt (f.path dir)).any (fun x => decide (x.data = f.data)) = true ∧
            agrees s (f.path dir) f.data = true := by
          simpa only [clearAct, decide_eq_false hsmall, hsame, Bool.not_true, Bool.or_false,
            Bool.false_or, Bool.and_eq_true] using hc
        refine h.saves hk rfl rfl hfit.1 hfit.2 rfl rfl (fun _ _ => rfl) rfl rfl ?_ hc.2
        obtain ⟨x, hx, hxd⟩ := (Option.any_eq_true ..).1 hc.1
        exact ⟨x, hx, of_decide_eq_true hxd⟩
      · cases hn
        exact h.quiet hk (fun _ hx => hx) (fun _ _ _ hl => nomatch hl) hfit

theorem sound_writing (h : Sound c s) (hk : s.At i (.writing dir f files arrived))
    (hc : clearAct c s (.writing dir f files arrived) = true)
    (hn : act c s.store (.writing dir f files arrived) = some (b', k')) :
    Sound c (s.put i b' k') := by
  have hfit : Conversation c dir ∧ Recordable c (c.recordPath dir) arrived := h.calls i _ hk
  cases hn
  refine h.saves hk rfl rfl hfit.1 hfit.2 rfl rfl (fun q hq => ?_) rfl rfl ?_ hc
  · show (Dict.assign (f.path dir) _ s.store.disk).lookup q = _
    rw [Dict.lookup_assign, if_neg hq]
    rfl
  · refine ⟨⟨f.data, s.store.now⟩, ?_, rfl⟩
    show (Dict.assign (f.path dir) _ s.store.disk).lookup (f.path dir) = _
    rw [Dict.lookup_assign, if_pos rfl]

theorem sound_listing (h : Sound c s) (hk : s.At i (.listing dir f files arrived))
    (hn : act c s.store (.listing dir f files arrived) = some (b', k')) :
    Sound c (s.put i b' k') := by
  have hfit : Conversation c dir ∧ Recordable c (c.recordPath dir) arrived := h.calls i _ hk
  simp only [act] at hn
  split at hn
  · cases hn
    exact h.quiet hk (fun _ hx => List.mem_cons_of_mem _ hx) (fun _ _ _ hl => nomatch hl) hfit
  · split at hn
    · cases hn
      have hsaves : Saves c dir f arrived [] (saved c dir f files arrived) := saves_saved
      refine h.quiet hk (fun x hx => ?_) (fun _ _ _ hl => nomatch hl)
        (hsaves.fit hfit.1 hfit.2 (fun _ hq => nomatch hq) _)
      exact List.mem_cons.2 ((hsaves.pending x).1 hx)
    · cases hn
      refine h.quiet hk (fun _ hx => hx) (fun _ _ _ hl => nomatch hl) ⟨hfit.1, hfit.2, ?_⟩
      intro q hq
      rw [List.append_nil, List.mem_map] at hq
      obtain ⟨x, hx, rfl⟩ := hq
      have hx := (List.mem_filter.1 ((List.mem_insertionSort _).1 hx)).2
      exact (of_decide_eq_true hx).1

theorem sound_evicting {held : Nat} {queue : List Str} (h : Sound c s)
    (hk : s.At i (.evicting dir f files arrived held queue gone))
    (hc : clearAct c s (.evicting dir f files arrived held queue gone) = true)
    (hn : act c s.store (.evicting dir f files arrived held queue gone) = some (b', k')) :
    Sound c (s.put i b' k') := by
  have hfit : Conversation c dir ∧ Recordable c (c.recordPath dir) arrived ∧
    ∀ q ∈ queue ++ gone, within dir q = true := h.calls i _ hk
  have hsaves : Saves c dir f arrived gone (evicted c dir f files arrived gone) := saves_evicted
  have hdone : Sound c (s.put i s.store (evicted c dir f files arrived gone)) := by
    refine h.quiet hk (fun x hx => List.mem_cons.2 ((hsaves.pending x).1 hx)) ?_
      (hsaves.fit hfit.1 hfit.2.1 (fun q hq => hfit.2.2 q (List.mem_append_right _ hq)) _)
    intro key r _ hl
    rw [hsaves.leaving]
    exact hl
  cases queue with
  | nil =>
    cases hn
    exact hdone
  | cons q queue =>
    simp only [act] at hn
    split at hn
    · cases hn
      exact hdone
    · next hheld =>
      split at hn
      · next hnone =>
        cases hn
        obtain rfl : gone = [] := by simpa [clearAct, hheld, hnone] using hc
        exact h.quiet hk (fun _ hx => List.mem_cons_of_mem _ hx) (fun _ _ _ hl => by cases hl)
          ⟨hfit.1, hfit.2.1⟩
      · next x hx =>
        cases hn
        have hc : settled s q = true := by simpa [clearAct, hheld, hx] using hc
        refine h.take hk (settled_iff.1 hc) (fun _ hx => hx)
          (fun p hp => List.mem_append_left _ hp)
          (List.mem_append_right _ (List.mem_singleton.2 rfl)) ⟨hfit.1, hfit.2.1, ?_⟩
        intro p hp
        refine hfit.2.2 p ?_
        simp only [List.mem_append, List.mem_cons] at hp ⊢
        tauto

end Save

/-! ## A record is changed -/

section Record

variable {gone : List Str} {after : After} {arrived : Arrived} {staying new : List ReceivedFile}

/-- A record that has no line of what was taken leaves none to drop. -/
theorem Sound.none_leaving (h : Sound c s) (hgone : Gone c key gone)
    (hnone : (s.store.entries key).filter (·.path ∈ gone) = []) :
    ∀ key₁, ∀ r ∈ s.store.entries key₁, r.path ∉ gone := by
  intro key₁ r hr hg
  obtain ⟨hst, hkey⟩ := h.placed key₁ r hr
  have hr : r ∈ s.store.entries key := (hkey.symm.trans (hgone _ hg hst)) ▸ hr
  exact List.filter_eq_nil_iff.1 hnone r hr (decide_eq_true hg)

/-- A path has one line. -/
theorem Sound.unique (h : Sound c s) {r r' : ReceivedFile} (hr : r ∈ s.store.entries key)
    (hr' : r' ∈ s.store.entries key) (hp : r.path = r'.path) : r = r' :=
  List.inj_on_of_nodup_map (h.once key) hr hr' hp

theorem sound_dropping (h : Sound c s) (hk : s.At i (.dropping key gone after))
    (hc : clearAct c s (.dropping key gone after) = true)
    (hn : act c s.store (.dropping key gone after) = some (b', k')) : Sound c (s.put i b' k') := by
  obtain ⟨hgone, hafter⟩ : Gone c key gone ∧ after.Fit c gone := h.calls i _ hk
  cases after with
  | saved dir f files arrived =>
    cases hn
    have hsaves : Saves c dir f arrived [] (saved c dir f files arrived) := saves_saved
    split
    · next hnone =>
      refine h.quiet hk (fun x hx => List.mem_cons.2 ((hsaves.pending x).1 hx)) ?_
        (hsaves.fit hafter.1 hafter.2 (fun _ hq => nomatch hq) _)
      exact fun key₁ r hr hl => absurd hl (h.none_leaving hgone hnone key₁ r hr)
    · exact h.quiet hk (fun _ hx => hx) (fun _ _ _ hl => hl) ⟨hgone, hafter⟩
  | adopted target data moved =>
    obtain ⟨htarget, ⟨source, rfl⟩, -⟩ := hafter
    simp only [act] at hn
    split at hn
    · next hnone =>
      cases hn
      have hleft := h.none_leaving hgone hnone
      -- the line of a file that was returned has to be there
      cases data with
      | some d =>
        obtain ⟨r, hr, hd⟩ := List.any_eq_true.1 hc
        exact absurd (of_decide_eq_true hd).1 (hleft key r hr)
      | none =>
        exact h.quiet hk (fun _ hx => nomatch hx)
          (fun key₁ r hr hl => absurd hl (hleft key₁ r hr)) trivial
    · next hsome =>
      cases hn
      refine h.quiet hk (fun _ hx => hx) (fun _ _ _ hl => hl)
        ⟨hgone, htarget, ⟨source, rfl⟩, fun r' hr' => ?_⟩
      obtain ⟨r, hr, rfl⟩ := List.mem_map.1 hr'
      obtain ⟨hr, hg⟩ := List.mem_filter.1 hr
      have hg : r.path = source := List.mem_singleton.1 (of_decide_eq_true hg)
      refine ⟨rfl, ?_⟩
      cases data with
      | none =>
        refine absurd (of_decide_eq_true (List.all_eq_true.1 hc r hr)) ?_
        simp [hg]
      | some d =>
        obtain ⟨r₁, hr₁, hd⟩ := List.any_eq_true.1 hc
        obtain ⟨hp, hm⟩ := of_decide_eq_true hd
        obtain rfl := h.unique hr hr₁ (hg.trans (List.mem_singleton.1 hp).symm)
        exact ⟨d, rfl, hm⟩

theorem sound_rewriting (h : Sound c s) (hk : s.At i (.rewriting key gone staying after))
    (hc : clearAct c s (.rewriting key gone staying after) = true)
    (hn : act c s.store (.rewriting key gone staying after) = some (b', k')) :
    Sound c (s.put i b' k') := by
  obtain ⟨hgone, hafter⟩ : Gone c key gone ∧ after.Fit c gone := h.calls i _ hk
  obtain ⟨hstay, hall⟩ := (Bool.and_eq_true ..).mp hc
  have hfree : ∀ q ∈ gone, s.store.returned.lookup q = none ∧
      ∀ j l, s.At j l → q ∉ counted l := by
    intro q hq
    have hq := (Bool.and_eq_true ..).mp (List.all_eq_true.1 hall q hq)
    exact ⟨of_decide_eq_true hq.1, fun j l hl => of_decide_eq_true (allCalls_iff.1 hq.2 j l hl)⟩
  cases after with
  | saved dir f files arrived =>
    cases hn
    have hsaves : Saves c dir f arrived [] (saved c dir f files arrived) := saves_saved
    exact h.rewrite hk rfl hgone (of_decide_eq_true hstay) hfree
      (fun x hx => List.mem_cons.2 ((hsaves.pending x).1 hx))
      (hsaves.fit hafter.1 hafter.2 (fun _ hq => nomatch hq) _)
  | adopted target data moved =>
    cases hn
    obtain ⟨htarget, -, hmoved⟩ := hafter
    refine h.rewrite hk rfl hgone (of_decide_eq_true hstay) hfree ?_ ?_
    · rintro ⟨q, d⟩ hx
      obtain ⟨x, hx, hq, hd⟩ := mem_owed.1 hx
      obtain ⟨r, hr, rfl⟩ := List.mem_map.1 hx
      obtain rfl : data = some d := hd
      obtain rfl : target = q := (hmoved r hr).1.symm.trans hq
      exact List.mem_singleton.2 rfl
    · intro x hx
      obtain ⟨r, hr, rfl⟩ := List.mem_map.1 hx
      obtain ⟨hp, d, hd, hm⟩ := hmoved r hr
      have hp : (r, data).1.path = target := hp
      rw [hp]
      exact ⟨htarget, rfl, d, hd, hm⟩

/-- A line found of a path that has come again says what came. -/
theorem found_matches (hrec : Recordable c key arrived)
    (hc : clearAct c s (.adding key arrived) = true) {x : ReceivedFile × Option Data}
    (hx : x ∈ arrived) {r : ReceivedFile} (hr : r ∈ s.store.entries key)
    (hp : r.path = x.1.path) : ∀ data, x.2 = some data → Matches c r data := by
  intro data hd
  obtain ⟨-, -, data', hd', hsize, hsha⟩ := hrec x hx
  obtain rfl : data' = data := Option.some.inj (hd'.symm.trans hd)
  have hsame := List.all_eq_true.1 (List.all_eq_true.1 hc x hx) r hr
  obtain ⟨hs, hh⟩ := of_decide_eq_true hsame hp
  exact ⟨hs.trans hsize, hh.trans hsha⟩

theorem sound_adding (h : Sound c s) (hk : s.At i (.adding key arrived))
    (hc : clearAct c s (.adding key arrived) = true)
    (hn : act c s.store (.adding key arrived) = some (b', k')) : Sound c (s.put i b' k') := by
  have hrec : Recordable c key arrived := h.calls i _ hk
  have hfound : ∀ x ∈ arrived,
      x.1 ∉ (arrived.map Prod.fst).filter (·.path ∉ (s.store.entries key).map (·.path)) →
      ∃ r ∈ s.store.entries key, r.path = x.1.path ∧
        ∀ data, x.2 = some data → Matches c r data := by
    intro x hx hxn
    have hknown : x.1.path ∈ (s.store.entries key).map (·.path) := by
      by_contra hne
      exact hxn (List.mem_filter.2 ⟨List.mem_map_of_mem hx, decide_eq_true hne⟩)
    obtain ⟨r, hr, hp⟩ := List.mem_map.1 hknown
    exact ⟨r, hr, hp, found_matches hrec hc hx hr hp⟩
  simp only [act] at hn
  split at hn
  · next hnil =>
    cases hn
    refine h.ret hk rfl rfl ⟨rfl, rfl, rfl, rfl⟩ h.written h.once h.placed (fun _ _ hr => hr)
      (fun _ _ hr => .inl hr) fun q d hq => ?_
    obtain ⟨x, hx, rfl, hd⟩ := mem_owed.1 hq
    obtain ⟨r, hr, hp, hm⟩ := hfound x hx (by rw [hnil]; exact List.not_mem_nil)
    refine ⟨r, ?_, hp, hm d hd⟩
    rw [Core.list, (hrec x hx).2.1]
    exact hr
  · cases hn
    refine h.quiet hk (fun _ hx => hx) (fun _ _ _ hl => nomatch hl)
      ⟨hrec, fun r hr => (List.mem_filter.1 hr).1, fun x hx hxn => hfound x hx fun hmem => ?_⟩
    exact hxn (List.mem_map_of_mem hmem)

theorem sound_appending (h : Sound c s) (hk : s.At i (.appending key arrived new))
    (hc : clearAct c s (.appending key arrived new) = true)
    (hn : act c s.store (.appending key arrived new) = some (b', k')) :
    Sound c (s.put i b' k') := by
  have hfit : Fit c s.store (.appending key arrived new) := h.calls i _ hk
  obtain ⟨hrec, hsub, hfound⟩ := hfit
  obtain ⟨hall, hnodup⟩ := (Bool.and_eq_true ..).mp hc
  have hfresh : ∀ r ∈ new, r.Plain ∧ r.path ∉ (s.store.entries key).map (·.path) := fun r hr =>
    of_decide_eq_true (List.all_eq_true.1 hall r hr)
  have hplain : ∀ r ∈ new, r.Plain := fun r hr => (hfresh r hr).1
  have hentries : ∀ key₁, (s.store.append key new).entries key₁ =
      if key₁ = key then s.store.entries key ++ new else s.store.entries key₁ := fun _ =>
    Core.entries_append h.written hplain
  have hnew : ∀ r ∈ new, ∃ d, (r.path, d) ∈ owed arrived ∧ Matches c r d ∧
      Stored c r.path ∧ c.recordPath (parent r.path) = key := by
    intro r hr
    obtain ⟨x, hx, rfl⟩ := List.mem_map.1 (hsub r hr)
    obtain ⟨hst, hkey, d, hd, hm⟩ := hrec x hx
    exact ⟨d, mem_owed.2 ⟨x, hx, rfl, hd⟩, hm, hst, hkey⟩
  cases hn
  refine h.ret hk rfl rfl ⟨rfl, rfl, rfl, rfl⟩ (h.written.append hplain) (fun key₁ => ?_)
    (fun key₁ r hr => ?_) (fun key₁ r hr => ?_) (fun key₁ r hr => ?_) fun q d hq => ?_
  · rw [hentries]
    split
    · rw [List.map_append]
      refine (h.once key).append (of_decide_eq_true hnodup) fun p hp hp' => ?_
      obtain ⟨r, hr, rfl⟩ := List.mem_map.1 hp'
      exact (hfresh r hr).2 hp
    · exact h.once key₁
  · rw [hentries] at hr
    split at hr
    · next heq =>
      subst heq
      rcases List.mem_append.1 hr with hr | hr
      · exact h.placed _ r hr
      · exact (hnew r hr).elim fun _ hr => hr.2.2
    · exact h.placed key₁ r hr
  · rw [hentries]
    split
    · next heq => exact List.mem_append_left _ (heq ▸ hr)
    · exact hr
  · rw [hentries] at hr
    split at hr
    · next heq =>
      rcases List.mem_append.1 hr with hr | hr
      · exact .inl (heq ▸ hr)
      · exact .inr ((hnew r hr).imp fun _ hr => hr.1)
    · exact .inl hr
  · obtain ⟨x, hx, rfl, hd⟩ := mem_owed.1 hq
    rw [Core.list, (hrec x hx).2.1, hentries, if_pos rfl]
    by_cases hxn : x.1.path ∈ new.map (·.path)
    · obtain ⟨r, hr, hp⟩ := List.mem_map.1 hxn
      obtain ⟨d', hd', hm, -⟩ := hnew r hr
      -- of two arrivals at one path the call owes the same data
      have heq : d' = d := h.agree x.1.path d' d (.inr ⟨i, _, hk, hp ▸ hd'⟩) (.inr ⟨i, _, hk, hq⟩)
      exact ⟨r, List.mem_append_right _ hr, hp, heq ▸ hm⟩
    · obtain ⟨r, hr, hp, hm⟩ := hfound x hx hxn
      exact ⟨r, List.mem_append_left _ hr, hp, hm d hd⟩

end Record

/-! ## A move -/

section Move

variable {source target : Str} {same : Bool}

theorem sound_moving (h : Sound c s) (hk : s.At i (.moving source target))
    (hn : act c s.store (.moving source target) = some (b', k')) : Sound c (s.put i b' k') := by
  have hfit : Fit c s.store (.moving source target) := h.calls i _ hk
  have hmove : ∀ same, Sound c (s.put i s.store (.placing source target same)) := fun _ =>
    h.quiet hk (fun _ hx => hx) (fun _ _ _ hl => nomatch hl) hfit
  simp only [act] at hn
  split at hn
  · cases hn
    exact hmove _
  · cases hn
    exact h.quiet hk (fun _ hx => hx) (fun _ _ _ hl => nomatch hl) trivial
  · cases hn
    exact hmove false

theorem sound_placing (h : Sound c s) (hk : s.At i (.placing source target same))
    (hc : clearAct c s (.placing source target same) = true)
    (hn : act c s.store (.placing source target same) = some (b', k')) :
    Sound c (s.put i b' k') := by
  obtain ⟨htarget, hne⟩ : Stored c target ∧ source ≠ target := h.calls i _ hk
  have hne' : target ≠ source := hne.symm
  simp only [act] at hn
  cases hx : s.store.fileAt source with
  | none =>
    rw [hx] at hn
    cases hn
    exact h.quiet hk (fun _ hx => hx) (fun _ _ _ hl => nomatch hl) trivial
  | some x =>
    simp only [clearAct, hx, Bool.and_eq_true] at hc hn
    obtain ⟨⟨hsettled, hret⟩, hplace⟩ := hc
    -- the file is taken from where it was, with its line still to drop
    have htake : Sound c (s.put i (s.store.take source)
        (.dropping (c.recordPath (parent source)) [source] (.adopted target none []))) := by
      refine h.take hk (settled_iff.1 hsettled) (fun _ hx => nomatch hx) (fun _ hq => nomatch hq)
        (List.mem_singleton.2 rfl) ⟨?_, htarget, ⟨source, rfl⟩, fun _ hr => nomatch hr⟩
      intro q hq _
      rw [List.mem_singleton.1 hq]
    have hat := Pool.at_put_self (s := s.store.take source) (k :=
      .dropping (c.recordPath (parent source)) [source] (.adopted target none [])) hk
    have howes : ∀ q d, Owes (s.put i (s.store.take source)
        (.dropping (c.recordPath (parent source)) [source] (.adopted target none []))) q d →
        Owes s q d := by
      intro q d ho
      rcases owes_put hk ho with hr | hp | ho
      · have hr : (Dict.remove source s.store.returned).lookup q = some d := hr
        rw [Dict.lookup_remove] at hr
        split at hr
        · cases hr
        · exact .inl hr
      · cases hp
      · exact ho
    -- and is at the target now
    have hland : ∀ b', b'.records = s.store.records →
        b'.returned = (s.store.take source).returned →
        (∀ q, q ≠ target → b'.fileAt q = (s.store.take source).fileAt q ∧
          (q ∈ b'.touched ↔ q ∈ s.store.touched)) →
        (∀ q ∈ (s.store.take source).live, q ∈ b'.live) →
        ((s.store.returned.lookup source).isSome = true → target ∈ b'.live) →
        (∀ d, Owes s target d ∨ s.store.returned.lookup source = some d → target ∉ b'.touched →
          ∃ x, b'.fileAt target = some x ∧ x.data = d) →
        Sound c (s.put i b' (.dropping (c.recordPath (parent source)) [source]
          (.adopted target (s.store.returned.lookup source) []))) := by
      intro b' hrec hret' hother hlive hnew hfile
      have hput : Sound c ((s.put i (s.store.take source)
          (.dropping (c.recordPath (parent source)) [source] (.adopted target none []))).put i b'
            (.dropping (c.recordPath (parent source)) [source]
              (.adopted target (s.store.returned.lookup source) []))) := by
        refine htake.keep target (s.store.returned.lookup source) hat hrec hret' ?_ hother hlive ?_
          (fun d hd => hfile d (hd.imp_left (howes target d))) (fun _ _ _ hl => hl) ?_
        · intro q d hq
          cases hr : s.store.returned.lookup source with
          | none =>
            rw [hr] at hq
            cases hq
          | some d' =>
            rw [hr] at hq
            obtain ⟨rfl, rfl⟩ := Prod.mk.inj (List.mem_singleton.1 hq)
            exact .inr ⟨rfl, rfl⟩
        · intro d hd
          rw [hd] at hret hnew
          have hagree := ((Bool.and_eq_true ..).mp hret).1
          exact ⟨htarget, hnew rfl, fun d' ho => agrees_iff.1 hagree d' (howes _ _ ho)⟩
        · refine ⟨fun q hq _ => ?_, htarget, ⟨source, rfl⟩, fun _ hr => nomatch hr⟩
          rw [List.mem_singleton.1 hq]
      rwa [Pool.put, Pool.put, List.set_set] at hput
    have hstill : ∀ q, q ≠ source → (s.store.take source).fileAt q = s.store.fileAt q := by
      intro q hq
      show (Dict.remove source s.store.disk).lookup q = _
      rw [Dict.lookup_remove, if_neg hq]
      rfl
    have hplaced : ∀ q, ((s.store.take source).place target x).fileAt q =
        if q = target then some x else (s.store.take source).fileAt q := fun q =>
      Dict.lookup_assign
    cases same with
    | true =>
      rw [if_pos rfl] at hn
      cases hr : s.store.returned.lookup source with
      | none =>
        rw [hr] at hn
        cases hn
        rw [hr] at hland
        refine hland (s.store.take source) rfl rfl (fun _ _ => ⟨rfl, Iff.rfl⟩) (fun _ hq => hq)
          nofun ?_
        rintro d (ho | hd) ht
        · rw [hstill target hne']
          exact (h.kept target d ho).2.2 ht
        · cases hd
      | some d =>
        rw [hr] at hn hret
        cases hn
        obtain ⟨hagree, hsame⟩ := (Bool.and_eq_true ..).mp hret
        obtain ⟨t, ht, htd⟩ := (Option.any_eq_true ..).1 hsame
        rw [hr] at hland
        refine hland _ rfl rfl (fun q hq => ⟨rfl, ?_⟩) (fun _ hq => List.mem_cons_of_mem _ hq)
          (fun _ => List.mem_cons_self) ?_
        · show q ∈ s.store.touched.filter (· ≠ target) ↔ _
          simp [hq]
        · rintro d' hd' -
          refine ⟨t, (hstill target hne').trans ht, (of_decide_eq_true htd).trans ?_⟩
          rcases hd' with ho | hd'
          · exact (agrees_iff.1 hagree d' ho).symm
          · exact Option.some.inj hd'
    | false =>
      rw [if_neg Bool.false_ne_true] at hn
      have hfile : ∀ d, Owes s target d ∨ s.store.returned.lookup source = some d →
          source ∉ s.store.touched → x.data = d := by
        rintro d (ho | hd) ht
        · rw [Bool.false_or, decide_eq_false ht, Bool.false_or] at hplace
          exact (agrees_iff.1 hplace d ho).symm
        · obtain ⟨x', hx', hd'⟩ := (h.kept source d (.inl hd)).2.2 ht
          obtain rfl : x' = x := Option.some.inj (hx'.symm.trans hx)
          exact hd'
      by_cases ht : source ∈ s.store.touched
      · rw [if_pos ht] at hn
        cases hn
        refine hland _ rfl rfl (fun q hq => ⟨?_, ?_⟩) (fun _ hq => List.mem_cons_of_mem _ hq)
          (fun _ => List.mem_cons_self) fun _ _ hn => absurd List.mem_cons_self hn
        · exact (hplaced q).trans (if_neg hq)
        · show q ∈ target :: s.store.touched.filter (· ≠ target) ↔ _
          simp [hq]
      · rw [if_neg ht] at hn
        cases hn
        refine hland _ rfl rfl (fun q hq => ⟨?_, ?_⟩) (fun _ hq => List.mem_cons_of_mem _ hq)
          (fun _ => List.mem_cons_self) fun d hd _ => ⟨x, ?_, hfile d hd ht⟩
        · exact (hplaced q).trans (if_neg hq)
        · show q ∈ s.store.touched.filter (· ≠ target) ↔ _
          simp [hq]
        · exact (hplaced target).trans (if_pos rfl)

end Move

/-! ## Runs -/

theorem sound_act (h : Sound c s) (hk : s.At i k) (hc : clearAct c s k = true)
    (hn : act c s.store k = some (b', k')) : Sound c (s.put i b' k') := by
  cases k with
  | saving dir files arrived => exact sound_saving h hk hc hn
  | writing dir f files arrived => exact sound_writing h hk hc hn
  | listing dir f files arrived => exact sound_listing h hk hn
  | evicting dir f files arrived held queue gone => exact sound_evicting h hk hc hn
  | dropping key gone after => exact sound_dropping h hk hc hn
  | rewriting key gone staying after => exact sound_rewriting h hk hc hn
  | adding key arrived => exact sound_adding h hk hc hn
  | appending key arrived new => exact sound_appending h hk hc hn
  | moving source target => exact sound_moving h hk hn
  | placing source target same => exact sound_placing h hk hc hn
  | ended => cases hn

/-- What nobody of the store does: time passes, or somebody writes where the store did. -/
theorem Sound.outer (h : Sound c s) (hrec : b'.records = s.store.records)
    (hret : b'.returned = s.store.returned) (hlive : b'.live = s.store.live)
    (hfile : ∀ q, q ∉ b'.touched → q ∉ s.store.touched ∧ b'.fileAt q = s.store.fileAt q) :
    Sound c { s with store := b' } := by
  have hentries := entries_of_records hrec
  have howes : ∀ q d, Owes { s with store := b' } q d → Owes s q d := fun q d ho =>
    ho.imp (fun hr => hret ▸ hr) id
  exact {
    written := h.written.same hrec
    once := fun key => by
      rw [hentries]
      exact h.once key
    placed := fun key r hr => h.placed key r (hentries key ▸ hr)
    listed := fun q d hq => by
      rw [Core.list, hentries]
      exact h.listed q d (hret ▸ hq)
    agree := fun q d d' hd hd' => h.agree q d d' (howes q d hd) (howes q d' hd')
    kept := fun q d ho => by
      obtain ⟨hst, hl, hx⟩ := h.kept q d (howes q d ho)
      refine ⟨hst, hlive.symm ▸ hl, fun ht => ?_⟩
      obtain ⟨ht', hq⟩ := hfile q ht
      exact hq.symm ▸ hx ht'
    known := fun key r hr => by
      have hr : r ∈ s.store.entries key := hentries key ▸ hr
      exact (h.known key r hr).imp_left fun ⟨d, hd⟩ => ⟨d, hret.symm ▸ hd⟩
    calls := fun j l hl => (h.calls j l hl).of fun key r hr _ => by rwa [hentries key] }

/-- A call that is about nothing yet. -/
theorem Sound.start (h : Sound c s) (hpend : pending k = []) (hfit : Fit c s.store k) :
    Sound c (s.start k) := by
  have howes : ∀ q d, Owes (s.start k) q d → Owes s q d := by
    rintro q d (hr | ⟨j, l, hl, hp⟩)
    · exact .inl hr
    · rcases Pool.at_start.1 hl with hl | ⟨-, rfl⟩
      · exact .inr ⟨j, l, hl, hp⟩
      · rw [hpend] at hp
        cases hp
  exact {
    written := h.written
    once := h.once
    placed := h.placed
    listed := h.listed
    agree := fun q d d' hd hd' => h.agree q d d' (howes q d hd) (howes q d' hd')
    kept := fun q d ho => h.kept q d (howes q d ho)
    known := fun key r hr => (h.known key r hr).imp_right fun ⟨j, l, hl, hm⟩ =>
      ⟨j, l, Pool.at_start.2 (.inl hl), hm⟩
    calls := fun j l hl => by
      rcases Pool.at_start.1 hl with hl | ⟨-, rfl⟩
      · exact h.calls j l hl
      · exact hfit }

theorem sound_next {e : Label} (h : Sound c s) (hc : Clear c s e) (hn : next c s e = some s') :
    Sound c s' := by
  cases e with
  | tick n =>
    cases hn
    exact h.outer rfl rfl rfl fun _ ht => ⟨ht, rfl⟩
  | saveMany agent id files =>
    cases hn
    exact h.start rfl ⟨⟨agent, id, rfl⟩, fun _ hx => nomatch hx⟩
  | adopt agent id path =>
    cases hn
    split
    · exact h.start rfl trivial
    · next hdir =>
      split
      · exact h.start rfl trivial
      · refine h.start rfl ⟨⟨agent, id, baseName path, rfl, slash_not_mem_baseName path⟩, ?_⟩
        intro heq
        refine hdir ?_
        rw [heq]
        exact parent_join (slash_not_mem_baseName path)
  | step i =>
    obtain ⟨k, b', k', hk, hact, rfl⟩ :=
      (Pool.exec_eq_some (m := fun k b => act c b k)).1 hn
    refine sound_act h hk ?_ hact
    have hk' : s.calls[i]? = some (some k) := hk
    simpa only [Clear, clear, hk'] using hc
  | outside path data =>
    cases hn
    refine h.outer rfl rfl rfl fun q ht => ?_
    have ht : q ∉ path :: s.store.touched := ht
    rw [List.mem_cons, not_or] at ht
    obtain ⟨hne, ht⟩ := ht
    refine ⟨ht, ?_⟩
    cases data with
    | none =>
      show (Dict.remove path s.store.disk).lookup q = _
      rw [Dict.lookup_remove, if_neg hne]
      rfl
    | some data =>
      show (Dict.assign path _ s.store.disk).lookup q = _
      rw [Dict.lookup_assign, if_neg hne]
      rfl

namespace Sample

def settings : Settings where
  root := str "/f"
  sha256 _ := []
  maxBytes := 4
  conversationMaxBytes := 0
  fileDigest data := data.map fun byte => .ofNat 16 byte.toNat

def photo (data : Data) : IncomingFile := ⟨str "p.png", data, str "image/png", str "1", str "now"⟩

def steps (n i : Nat) : List Label := List.replicate n (.step i)

/-- A photo is saved where the gateway knows the conversation, and adopted by the flow. -/
def adopted : List Label :=
  .saveMany (str "a") (str "g") [photo [7]] :: steps 5 0 ++
    .adopt (str "a") (str "c") (str "/f/a/g/1-p.png") :: steps 6 1

/-- A photo comes again, edited. -/
def edited : List Label :=
  .saveMany (str "a") (str "c") [photo [7]] :: steps 5 0 ++
    .saveMany (str "a") (str "c") [photo [7, 8]] :: steps 4 1

end Sample

end Received
