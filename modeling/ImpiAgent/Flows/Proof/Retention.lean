import ImpiAgent.Flows.Retention

/-!
# The sweep takes only files of dead conversations

A sweep judges a conversation by its record as it was listed, and the record says a conversation is
alive only when its turn has ended: a file that has just come with a message goes with the old ones
(`arrival_taken`). Where nothing happened to a directory and its conversation since the sweep
looked, and no file there is newer than the record says (`Clear`), all that is taken is of a dead
conversation (`dead_taken`).
-/

namespace Retention

open Text (Str)

variable {c : Settings} {s s' : State} {b b' : Core} {i : Nat} {k k' : Point} {dir : Dir}
  {days cutoff now now' : Int} {records : List Session} {rest : List Dir} {ground : Ground}

/-- The conversation had no recorded activity and received no file for `days`, or there was none and
nothing was written to its directory. -/
def Taken.Dead (x : Taken) : Prop :=
  if x.activity = [] then x.newest < x.time - x.days * day
  else (∀ a ∈ x.activity, ∃ t, a = some t ∧ t < x.time - x.days * day) ∧
    ∀ t, x.received = some t → t < x.time - x.days * day

instance (x : Taken) : Decidable x.Dead := by
  unfold Taken.Dead
  have (a : Option Int) : Decidable (∃ t, a = some t ∧ t < x.time - x.days * day) :=
    match a with
    | none => isFalse nofun
    | some t => decidable_of_iff (t < x.time - x.days * day) (by simp)
  have : Decidable (∀ t, x.received = some t → t < x.time - x.days * day) :=
    match x.received with
    | none => isTrue nofun
    | some t => decidable_of_iff (t < x.time - x.days * day) (by simp)
  infer_instance

/-- Nothing happened to a directory since the sweep looked: the record it has of the conversation
is the one there is, and no file came after what it says; or there is no record, and the directory
is as it was. -/
def Ground.Stands (c : Settings) (b : Core) (dir : Dir) : Ground → Prop
  | .idle r => r ∈ b.sessions ∧ (∀ r' ∈ b.sessions, c.dir r' = dir → r' = r) ∧
      ∀ a t, r.lastActive = some a → b.received.lookup dir = some t → t ≤ a
  | .unowned d => (∀ r ∈ b.sessions, c.dir r ≠ dir) ∧ b.disk.lookup dir = some d

def Clear (c : Settings) (s : State) : Label → Prop
  | .step i => ∀ days cutoff records dir rest ground d,
      s.At i (.forgetting days cutoff records dir rest ground) →
      s.store.disk.lookup dir = some d → d.files ≠ [] → ground.Stands c s.store dir
  | _ => True

/-! ## What a sweep knows -/

def Ground.Fits (c : Settings) (cutoff : Int) (dir : Dir) : Ground → Prop
  | .idle r => c.dir r = dir ∧ ∃ t, r.lastActive = some t ∧ t < cutoff
  | .unowned d => d.newest < cutoff

def Point.Fits (c : Settings) (now : Int) : Point → Prop
  | .listing days cutoff | .scanning days cutoff _ | .looking days cutoff .. =>
    cutoff ≤ now - days * day
  | .forgetting days cutoff _ dir _ ground => cutoff ≤ now - days * day ∧ ground.Fits c cutoff dir
  | _ => True

theorem Point.Fits.mono (h : k.Fits c now) (hle : now ≤ now') : k.Fits c now' := by
  cases k with
  | listing days cutoff => exact Int.le_trans h (Int.sub_le_sub_right hle _)
  | scanning days cutoff records => exact Int.le_trans h (Int.sub_le_sub_right hle _)
  | looking days cutoff records dir rest => exact Int.le_trans h (Int.sub_le_sub_right hle _)
  | forgetting days cutoff records dir rest ground =>
    exact ⟨Int.le_trans h.1 (Int.sub_le_sub_right hle _), h.2⟩
  | _ => trivial

theorem known_eq {r : Session} (h : c.known records dir = some r) : c.dir r = dir := by
  have hm := List.mem_of_getLast? h
  simpa using (List.mem_filter.1 hm).2

theorem fits_sweepFrom (h : cutoff ≤ now - days * day) (dirs : List Dir) :
    (sweepFrom c days cutoff records dirs).Fits c now := by
  induction dirs with
  | nil => trivial
  | cons dir rest ih =>
    unfold sweepFrom
    split
    · rename_i r hr
      split
      · rename_i hi
        exact ⟨h, known_eq hr, by simpa [idleBefore, Option.any_eq_true] using hi⟩
      · exact ih
    · exact h

/-! ## What the steps leave -/

@[simp] theorem move_now (source target : Dir) (name : Str) :
    (b.move source target name).1.now = b.now := by
  unfold Core.move Core.unlink Core.receive
  dsimp only
  split
  · rfl
  · split <;> split <;> rfl

@[simp] theorem move_taken (source target : Dir) (name : Str) :
    (b.move source target name).1.taken = b.taken := by
  unfold Core.move Core.unlink Core.receive
  dsimp only
  split
  · rfl
  · split <;> split <;> rfl

@[simp] theorem unlink_now (name : Str) : (b.unlink dir name).now = b.now := by
  unfold Core.unlink
  split <;> rfl

@[simp] theorem unlink_taken (name : Str) : (b.unlink dir name).taken = b.taken := by
  unfold Core.unlink
  split <;> rfl

@[simp] theorem rmdir_now : (b.rmdir dir).now = b.now := by
  unfold Core.rmdir
  split
  · split <;> rfl
  · rfl

@[simp] theorem rmdir_taken : (b.rmdir dir).taken = b.taken := by
  unfold Core.rmdir
  split
  · split <;> rfl
  · rfl

@[simp] theorem getOrCreate_now (agent key : Str) : (b.getOrCreate agent key).now = b.now := by
  unfold Core.getOrCreate
  split <;> rfl

@[simp] theorem getOrCreate_taken (agent key : Str) :
    (b.getOrCreate agent key).taken = b.taken := by
  unfold Core.getOrCreate
  split <;> rfl

@[simp] theorem take_now : (b.take c days dir).now = b.now := by
  unfold Core.take
  split <;> rfl

/-- What is taken where nothing happened since the sweep looked. -/
theorem dead_of_stands {x : Taken} (hf : cutoff ≤ b.now - days * day)
    (hg : ground.Fits c cutoff dir)
    (hs : ∀ d, b.disk.lookup dir = some d → d.files ≠ [] → ground.Stands c b dir)
    (hx : x ∈ (b.take c days dir).taken) (hne : x.files ≠ []) : x ∈ b.taken ∨ x.Dead := by
  unfold Core.take at hx
  cases hd : b.disk.lookup dir with
  | none =>
    rw [hd] at hx
    exact .inl hx
  | some d =>
    rw [hd] at hx
    refine (List.mem_append.1 hx).imp_right fun hx => ?_
    cases List.mem_singleton.1 hx
    have hst := hs d hd fun he => hne (by rw [he]; rfl)
    unfold Taken.Dead
    dsimp only
    cases ground with
    | idle r =>
      obtain ⟨hdir, t, ht, hlt⟩ := hg
      obtain ⟨hm, honly, hrec⟩ := hst
      have hmem : r ∈ b.sessions.filter fun r => c.dir r = dir :=
        List.mem_filter.2 ⟨hm, decide_eq_true hdir⟩
      rw [if_neg fun he => List.ne_nil_of_mem hmem (List.map_eq_nil_iff.1 he)]
      refine ⟨fun a ha => ?_, fun t' ht' => ?_⟩
      · obtain ⟨r', hr', rfl⟩ := List.mem_map.1 ha
        obtain ⟨hr', hd'⟩ := List.mem_filter.1 hr'
        rw [honly r' hr' (of_decide_eq_true hd')]
        exact ⟨t, ht, by omega⟩
      · have := hrec t t' ht ht'
        omega
    | unowned d' =>
      have he : d = d' := Option.some.inj (hd.symm.trans hst.2)
      have hnil : (b.sessions.filter fun r => c.dir r = dir) = [] :=
        List.filter_eq_nil_iff.2 fun r hr => by simpa using hst.1 r hr
      have hn : d'.newest < cutoff := hg
      rw [hnil, if_pos List.map_nil, he]
      omega

/-- One step of a call. -/
theorem act_now (ha : act c b k = some (b', k')) : b'.now = b.now := by
  cases k with
  | saving m files saved =>
    cases files with
    | nil => cases ha; rfl
    | cons f files =>
      simp only [act] at ha
      split at ha <;> cases ha <;> rfl
  | adopting m saved =>
    cases saved with
    | nil => cases ha; rfl
    | cons name saved =>
      simp only [act] at ha
      split at ha <;> cases ha
      · rfl
      · exact move_now _ _ _
  | looking days cutoff records dir rest =>
    simp only [act] at ha
    split at ha
    · split at ha <;> cases ha <;> rfl
    · cases ha
      rfl
  | tidying m saved => cases ha; exact rmdir_now
  | opening m => cases ha; exact getOrCreate_now _ _
  | turn m => cases ha; rfl
  | forgetting days cutoff records dir rest ground => cases ha; exact take_now
  | listing days cutoff => cases ha
  | scanning days cutoff records => cases ha
  | ended => cases ha

theorem act_fits (hk : k.Fits c b.now) (ha : act c b k = some (b', k')) : k'.Fits c b.now := by
  cases k with
  | saving m files saved =>
    cases files with
    | nil => cases ha; trivial
    | cons f files =>
      simp only [act] at ha
      split at ha <;> cases ha <;> trivial
  | adopting m saved =>
    cases saved with
    | nil => cases ha; trivial
    | cons name saved =>
      simp only [act] at ha
      split at ha <;> cases ha
      · trivial
      · split <;> trivial
  | looking days cutoff records dir rest =>
    simp only [act] at ha
    split at ha
    · split at ha <;> cases ha
      · exact ⟨hk, ‹_›⟩
      · exact fits_sweepFrom hk rest
    · cases ha
      trivial
  | forgetting days cutoff records dir rest ground => cases ha; exact fits_sweepFrom hk.1 rest
  | tidying m saved => cases ha; trivial
  | opening m => cases ha; trivial
  | turn m => cases ha; trivial
  | listing days cutoff => cases ha
  | scanning days cutoff records => cases ha
  | ended => cases ha

/-- Only a sweep takes. -/
theorem act_taken (hk : ∀ days cutoff records dir rest ground,
    k ≠ .forgetting days cutoff records dir rest ground) (ha : act c b k = some (b', k')) :
    b'.taken = b.taken := by
  cases k with
  | saving m files saved =>
    cases files with
    | nil => cases ha; rfl
    | cons f files =>
      simp only [act] at ha
      split at ha <;> cases ha <;> rfl
  | adopting m saved =>
    cases saved with
    | nil => cases ha; rfl
    | cons name saved =>
      simp only [act] at ha
      split at ha <;> cases ha
      · rfl
      · exact move_taken _ _ _
  | looking days cutoff records dir rest =>
    simp only [act] at ha
    split at ha
    · split at ha <;> cases ha <;> rfl
    · cases ha
      rfl
  | tidying m saved => cases ha; exact rmdir_taken
  | opening m => cases ha; exact getOrCreate_taken _ _
  | turn m => cases ha; rfl
  | forgetting days cutoff records dir rest ground => exact absurd rfl (hk _ _ _ _ _ _)
  | listing days cutoff => cases ha
  | scanning days cutoff records => cases ha
  | ended => cases ha

/-! ## Runs -/

structure Sound (c : Settings) (s : State) : Prop where
  points : ∀ i k, s.At i k → k.Fits c s.store.now
  taken : ∀ x ∈ s.store.taken, x.files ≠ [] → x.Dead

theorem Sound.put (h : Sound c s) (hk : s.At i k) (hn : s.store.now ≤ b.now) (hf : k'.Fits c b.now)
    (ht : ∀ x ∈ b.taken, x.files ≠ [] → x.Dead) : Sound c (s.put i b k') := by
  refine ⟨fun j k'' hj => ?_, ht⟩
  rcases (Pool.at_put hk).1 hj with ⟨-, rfl⟩ | ⟨-, hj⟩
  · exact hf
  · exact (h.points j k'' hj).mono hn

theorem Sound.start (h : Sound c s) (hf : k.Fits c s.store.now) : Sound c (s.start k) := by
  refine ⟨fun j k' hj => ?_, h.taken⟩
  rcases Pool.at_start.1 hj with hj | ⟨-, rfl⟩
  · exact h.points j k' hj
  · exact hf

/-- What nobody here did. -/
theorem Sound.outer (h : Sound c s) (hn : s.store.now ≤ b.now) (ht : b.taken = s.store.taken) :
    Sound c { s with store := b } :=
  ⟨fun j k hj => (h.points j k hj).mono hn, fun x hx => h.taken x (ht ▸ hx)⟩

theorem Sound.step (h : Sound c s) (hk : s.At i k) (hc : Clear c s (.step i))
    (ha : act c s.store k = some (b', k')) : Sound c (s.put i b' k') := by
  have hf := h.points i k hk
  have hn := act_now ha
  refine h.put hk (Int.le_of_eq hn.symm) (hn ▸ act_fits hf ha) fun x hx hne => ?_
  by_cases hfor : ∃ days cutoff records dir rest ground,
      k = .forgetting days cutoff records dir rest ground
  · obtain ⟨days, cutoff, records, dir, rest, ground, rfl⟩ := hfor
    cases ha
    rcases dead_of_stands hf.1 hf.2 (fun d hd hne => hc _ _ _ _ _ _ d hk hd hne) hx hne with hx | hx
    · exact h.taken x hx hne
    · exact hx
  · have ht := act_taken (fun days cutoff records dir rest ground he =>
      hfor ⟨days, cutoff, records, dir, rest, ground, he⟩) ha
    exact h.taken x (ht ▸ hx) hne

theorem Sound.next {l : Label} (h : Sound c s) (hc : Clear c s l) (hn : next c s l = some s') :
    Sound c s' := by
  cases l with
  | tick n =>
    cases hn
    exact h.outer (by show s.store.now ≤ s.store.now + n; omega) rfl
  | message m => cases hn; exact h.start trivial
  | sweep days =>
    cases hn
    refine h.start ?_
    split
    · trivial
    · exact Int.le_refl _
  | records i records =>
    simp only [Retention.next] at hn
    split at hn
    · rename_i days cutoff hk
      split at hn <;> cases hn
      have hf : Point.Fits c s.store.now (.listing days cutoff) := h.points i _ hk
      exact h.put hk (Int.le_refl _) hf h.taken
    · cases hn
  | dirs i dirs =>
    simp only [Retention.next] at hn
    split at hn
    · rename_i days cutoff records hk
      split at hn <;> cases hn
      exact h.put hk (Int.le_refl _) (fits_sweepFrom (h.points i _ hk) dirs) h.taken
    · cases hn
  | step i =>
    simp only [Retention.next] at hn
    split at hn
    · rename_i k hk
      obtain ⟨q, ha, rfl⟩ := Option.map_eq_some_iff.1 hn
      exact h.step hk hc ha
    · cases hn
  | kill i =>
    cases hn
    exact ⟨fun j k hj => h.points j k (Pool.at_kill.1 hj).2, h.taken⟩
  | write dir name size => cases hn; exact h.outer (Int.le_refl _) rfl
  | unlink dir name =>
    cases hn
    exact h.outer (Int.le_of_eq (unlink_now name).symm) (unlink_taken name)
  | delete agent key => cases hn; exact h.outer (Int.le_refl _) rfl
  | forget dir => cases hn; exact h.outer (Int.le_refl _) rfl

theorem sound (hr : (lts c).Reach (Clear c) s) : Sound c s := by
  refine hr.inv (fun s hs => ?_) fun s s' l h hc hn => h.next hc hn
  cases hs
  exact ⟨fun i k hi => absurd hi.lt (Nat.not_lt_zero i), nofun⟩

/-- In every run where nothing happens to a directory and its conversation between a sweep's look
and what it takes, and no file taken is newer than its record says. -/
theorem dead_taken (hr : (lts c).Reach (Clear c) s) :
    ∀ x ∈ s.store.taken, x.files ≠ [] → x.Dead := (sound hr).taken

namespace Sample

def settings : Settings where
  root := Text.str "files"
  sha256 := fun _ => []
  maxBytes := 100

def agent : Str := Text.str "assistant"

def photo (key stamp : String) : Message :=
  ⟨agent, Text.str key, Text.str key, [⟨Text.str stamp, Text.str "photo", 3⟩]⟩

def listed (key : String) (t : Int) : Session := ⟨agent, Text.str key, some t⟩

def dirOf (key : String) : Dir := Text.str ("files/assistant/" ++ key)

/-- A message, its turn, and a sweep two days later. -/
def idle : List Label :=
  [.message (photo "c1" "f1"), .step 0, .step 0, .step 0, .step 0, .step 0, .tick 172800000001,
    .step 0, .tick 172800000001, .sweep 1, .records 1 [listed "c1" 172800000000], .dirs 1 [dirOf "c1"],
    .step 1]

/-- A file comes for a conversation that has long been idle, and a sweep runs before its turn has
ended. -/
def arriving : List Label :=
  [.message (photo "c1" "f1"), .step 0, .step 0, .step 0, .step 0, .step 0,
    .tick 172800000000, .message (photo "c1" "f2"), .step 1,
    .sweep 1, .records 2 [listed "c1" 0], .dirs 2 [dirOf "c1"], .step 2]

def stands (b : Core) (dir : Dir) : Ground → Bool
  | .idle r => decide (r ∈ b.sessions) &&
      (b.sessions.all fun r' => settings.dir r' ≠ dir || r' = r) &&
      r.lastActive.all fun a => (b.received.lookup dir).all fun t => decide (t ≤ a)
  | .unowned d => (b.sessions.all fun r => settings.dir r ≠ dir) && b.disk.lookup dir = some d

theorem stands_of_stands (b : Core) (dir : Dir) (ground : Ground)
    (h : stands b dir ground = true) : ground.Stands settings b dir := by
  cases ground with
  | idle r =>
    simp only [stands, Bool.and_eq_true, decide_eq_true_eq, List.all_eq_true] at h
    obtain ⟨⟨hm, honly⟩, hrec⟩ := h
    refine ⟨hm, fun r' hr' hd => ?_, fun a t ha ht => ?_⟩
    · simpa [hd] using honly r' hr'
    · simpa [ha, ht] using hrec
  | unowned d => simpa [stands, Ground.Stands] using h

def clear (s : State) : Label → Bool
  | .step i =>
    match s.calls[i]? with
    | some (some (.forgetting _ _ _ dir _ ground)) => stands s.store dir ground
    | _ => true
  | _ => true

theorem clear_of_clear (s : State) (l : Label) (h : clear s l = true) : Clear settings s l := by
  cases l with
  | step i =>
    intro days cutoff records dir rest ground d hk _ _
    refine stands_of_stands _ _ _ ?_
    simpa [clear, show s.calls[i]? = some (some _) from hk] using h
  | _ => trivial

end Sample

/-- The sweep takes the file of a conversation idle for two days. -/
theorem dead_taken_run : ∃ s, (lts Sample.settings).Reach (Clear Sample.settings) s ∧
    s.store.taken.map (·.files) = [[Text.str "f1-photo"]] ∧
    ∀ x ∈ s.store.taken, x.files ≠ [] → x.Dead := by
  have hs : ((lts Sample.settings).check Sample.clear ⟨⟨0, [], [], [], []⟩, []⟩ Sample.idle).any
      (fun s => s.store.taken.map (·.files) = [[Text.str "f1-photo"]]) = true := by
    decide
  obtain ⟨s, hc, hp⟩ := (Option.any_eq_true _ _).1 hs
  have hr := Lts.reach_of_check Sample.clear_of_clear rfl hc
  exact ⟨s, hr, of_decide_eq_true hp, dead_taken hr⟩

/-- A file that has just come is taken. -/
theorem arrival_taken : ¬∀ (c : Settings) (s : State), (lts c).Reach Lts.Any s →
    ∀ x ∈ s.store.taken, x.files ≠ [] → x.Dead := by
  intro h
  have hs : ((lts Sample.settings).check (fun _ _ => true) ⟨⟨0, [], [], [], []⟩, []⟩
      Sample.arriving).any
      (fun s => s.store.taken.any fun x => decide (x.files ≠ []) && !decide x.Dead) = true := by
    decide
  obtain ⟨s, hc, hp⟩ := (Option.any_eq_true _ _).1 hs
  have hr := Lts.reach_of_check (L := lts Sample.settings) (C := Lts.Any)
    (fun _ _ _ => trivial) rfl hc
  obtain ⟨x, hx, hb⟩ := List.any_eq_true.1 hp
  obtain ⟨hne, hd⟩ := (Bool.and_eq_true _ _).mp hb
  have := h Sample.settings s hr x hx (of_decide_eq_true hne)
  simp [this] at hd

end Retention
