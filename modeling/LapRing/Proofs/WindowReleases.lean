import LapRing.Proofs.GatingMoves
import LapRing.Proofs.WindowOpening
import Mathlib.Data.List.Induction
import Mathlib.Data.List.Pairwise
import Mathlib.Logic.Function.Basic

/-!
# Windows and their releases

Competing consumers share the position of one poller. Each claims the window after
the position, drains it at its own pace, and releases it once gating is where the
window begins. What producers do meanwhile may be anything that leaves gating
alone. The windows that are not released yet line up from gating to the position,
so the first of them is never kept waiting by another.
-/
namespace LapRing

/-- Where a consumer is with its window. -/
inductive Turn
  | idle
  | looking (position : Int64)
  | found (win : Window)
  | draining (win : Window) (handed : ℕ)
  | over (win : Window)

/-- The window that is claimed and not released. -/
def Turn.window? : Turn → Option Window
  | .idle | .looking _ | .found _ => none
  | .draining win _ | .over win => some win

/-- The move of gating that releases a window. -/
def Window.move (win : Window) : Sequencer.Move := ⟨win.last, win.first - 1⟩

/-- The end of a line of windows. -/
def endOf (start : Int64) (line : List Window) : Int64 :=
  line.foldl (fun _ win => win.last) start

/-- Windows each of which begins right after the one before it. -/
def Follows : Int64 → List Window → Prop
  | _, [] => True
  | start, win :: line =>
    win.first.toInt = start.toInt + 1 ∧ win.first.toInt ≤ win.last.toInt ∧ Follows win.last line

section Lines
variable {start : Int64} {win : Window} {line line' : List Window}

theorem endOf_append : endOf start (line ++ line') = endOf (endOf start line) line' :=
  List.foldl_append

theorem endOf_concat : endOf start (line ++ [win]) = win.last := by
  simp [endOf]

theorem endOf_eq_or (start : Int64) (line : List Window) :
    endOf start line = start ∨ ∃ win ∈ line, endOf start line = win.last := by
  induction line using List.reverseRecOn with
  | nil => exact Or.inl rfl
  | append_singleton line win _ => exact Or.inr ⟨win, by simp, endOf_concat⟩

theorem follows_append :
    Follows start (line ++ line') ↔ Follows start line ∧ Follows (endOf start line) line' := by
  induction line generalizing start with
  | nil => simp [Follows, endOf]
  | cons win line ih =>
    simp only [List.cons_append, Follows, ih, and_assoc]
    rfl

theorem follows_concat : Follows start (line ++ [win]) ↔ Follows start line ∧
    win.first.toInt = (endOf start line).toInt + 1 ∧ win.first.toInt ≤ win.last.toInt := by
  simp [follows_append, Follows]

theorem Follows.le (h : Follows start line) : start.toInt ≤ (endOf start line).toInt := by
  induction line generalizing start with
  | nil => exact le_refl _
  | cons win line ih =>
    obtain ⟨hfirst, hle, hrest⟩ := h
    have := ih hrest
    change start.toInt ≤ (endOf win.last line).toInt
    omega

/-- Windows in line begin after where the line begins. -/
theorem Follows.lt_first (h : Follows start line) (hwin : win ∈ line) :
    start.toInt < win.first.toInt ∧ win.first.toInt ≤ win.last.toInt := by
  induction line generalizing start with
  | nil => simp at hwin
  | cons first line ih =>
    obtain ⟨hfirst, hle, hrest⟩ := h
    rcases List.mem_cons.mp hwin with rfl | hwin
    · omega
    · have := ih hrest hwin
      omega

theorem Window.range_move (start : -2 ^ 63 < win.first.toInt) :
    win.move.range = Set.Icc win.first.toInt win.last.toInt := by
  ext t
  have hpred : (win.first - 1).toInt = win.first.toInt - 1 := Checked.toInt_pred (by omega)
  simp only [Sequencer.Move.range, Window.move, hpred, Set.mem_Ioc, Set.mem_Icc]
  omega

/-- The releases of windows in line move gating from the start of the line to its end. -/
theorem Follows.partition (h : Follows start line) :
    Sequencer.Partition (line.map Window.move) start (endOf start line) := by
  have hlow := start.le_toInt
  have hrange : ∀ win ∈ line, win.move.range = Set.Icc win.first.toInt win.last.toInt := by
    intro win hwin
    have := h.lt_first hwin
    exact Window.range_move (by omega)
  induction line generalizing start with
  | nil =>
    refine ⟨le_refl _, .nil, fun t => ?_⟩
    simp [endOf]
  | cons win line ih =>
    obtain ⟨hfirst, hle, hrest⟩ := h
    have hpart := ih hrest win.last.le_toInt fun w hw => hrange w (List.mem_cons_of_mem win hw)
    have hhead := hrange win List.mem_cons_self
    have hend := hrest.le
    change Sequencer.Partition (win.move :: line.map Window.move) start (endOf win.last line)
    constructor
    · omega
    · apply List.Pairwise.cons _ hpart.apart
      intro m hm
      rw [Set.disjoint_left]
      intro t ht ht'
      rw [hhead] at ht
      obtain ⟨hlt, -⟩ := (hpart.union t).mpr ⟨m, hm, ht'⟩
      have := ht.2
      omega
    · intro t
      simp only [List.exists_mem_cons_iff, ← hpart.union t, hhead, Set.mem_Ioc, Set.mem_Icc]
      omega

end Lines

/-- The consumers of one competing poller. The windows are listed in the order in
which they were claimed, and in the order in which they were released. -/
structure WindowReleases (cap : Capacity) (Q : Type) where
  sequencer : Sequencer cap
  poller : Poller
  turns : Q → Turn
  claims : List Window
  released : List Window

namespace WindowReleases
variable {cap : Capacity} {Q : Type} {start : Sequencer cap} {c c' : WindowReleases cap Q} {q : Q}
  {win : Window}

/-- A competing poller that was just created for a sequencer. -/
def new (start : Sequencer cap) : WindowReleases cap Q where
  sequencer := start
  poller := .new .multi start
  turns _ := .idle
  claims := []
  released := []

/-- The last sequence claimed by any consumer. -/
def position (c : WindowReleases cap Q) : Int64 := c.poller.position c.sequencer

/-- A consumer has claimed the window and not released it. -/
def Outstanding (c : WindowReleases cap Q) (q : Q) (win : Window) : Prop :=
  (c.turns q).window? = some win

variable [DecidableEq Q]

def goTo (c : WindowReleases cap Q) (q : Q) (turn : Turn) : WindowReleases cap Q :=
  { c with turns := Function.update c.turns q turn }

/-- One access of a consumer, or of somebody else who leaves gating alone. -/
inductive Step : WindowReleases cap Q → WindowReleases cap Q → Prop
  | others {c : WindowReleases cap Q} {s : Sequencer cap} :
      s.gating = c.sequencer.gating → Step c { c with sequencer := s }
  | look {c : WindowReleases cap Q} {q : Q} :
      c.turns q = .idle → Step c (c.goTo q (.looking c.position))
  /-- The position may have moved on since the consumer looked at it. -/
  | find {c : WindowReleases cap Q} {q : Q} {position : Int64} {batch : UInt64} {win : Window} :
      c.turns q = .looking position → batch ≠ 0 →
      (Poller.window c.sequencer position (min batch cap.word).toInt64 :
        Act (Sequencer cap) (Option Window)) c.sequencer = .ok (some win) c.sequencer →
      Step c (c.goTo q (.found win))
  | leave {c : WindowReleases cap Q} {q : Q} {position : Int64} :
      c.turns q = .looking position → Step c (c.goTo q .idle)
  /-- The window is claimed by a consumer that finds the position unmoved. -/
  | claim {c : WindowReleases cap Q} {q : Q} {win : Window} :
      c.turns q = .found win → c.position = win.first - 1 →
      Step c ({ c with
        poller := c.poller.claim win
        claims := c.claims ++ [win] }.goTo q (.draining win 0))
  | lose {c : WindowReleases cap Q} {q : Q} {win : Window} :
      c.turns q = .found win → Step c (c.goTo q .idle)
  | drain {c : WindowReleases cap Q} {q : Q} {win : Window} {handed : ℕ} :
      c.turns q = .draining win handed → handed < win.size →
      Step c (c.goTo q (.draining win (handed + 1)))
  | finish {c : WindowReleases cap Q} {q : Q} {win : Window} :
      c.turns q = .draining win win.size → Step c (c.goTo q (.over win))
  /-- The callback is cut short somewhere in the window. -/
  | giveUp {c : WindowReleases cap Q} {q : Q} {win : Window} {handed : ℕ} :
      c.turns q = .draining win handed → handed < win.size → Step c (c.goTo q (.over win))
  | release {c : WindowReleases cap Q} {q : Q} {win : Window} {s : Sequencer cap}
      {poller : Poller} : c.turns q = .over win →
      Poller.release Part.first Part.second win (c.sequencer, c.poller) = .ok () (s, poller) →
      Step c ({ c with
        sequencer := s
        poller
        released := c.released ++ [win] }.goTo q .idle)

def Reachable (start : Sequencer cap) (c : WindowReleases cap Q) : Prop :=
  Relation.ReflTransGen Step (new start) c

omit [DecidableEq Q]

/-- The consumers with outstanding windows, in the order of their claims. -/
structure Line (c : WindowReleases cap Q) (line : List (Q × Window)) : Prop where
  nodup : (line.map Prod.fst).Nodup
  mem : ∀ q win, (q, win) ∈ line ↔ c.Outstanding q win
  claims : c.claims = c.released ++ line.map Prod.snd

/-- A window that a poll may find, wherever the position was. -/
structure Sized (cap : Capacity) (win : Window) : Prop where
  start : -2 ^ 63 < win.first.toInt
  le : win.first.toInt ≤ win.last.toInt
  lap : win.last.toInt < win.first.toInt + cap.slots

/-- What is released comes first among the claims, and gating is at its end. The
position is at the end of all claims. -/
structure Sound (start : Sequencer cap) (c : WindowReleases cap Q) : Prop where
  competing : c.poller.consumer = .multi
  line : ∃ line, c.Line line
  follows : Follows start.gating c.claims
  gating : c.sequencer.gating = endOf start.gating c.released
  position : c.position = endOf start.gating c.claims
  claims : ∀ win ∈ c.claims, Sized cap win
  found : ∀ q win, c.turns q = .found win → Sized cap win

theorem sound_new (start : Sequencer cap) : (new start : WindowReleases cap Q).Sound start := by
  refine ⟨rfl, ⟨[], .nil, fun q win => ?_, rfl⟩, trivial, rfl, rfl, nofun, nofun⟩
  simp [Outstanding, new, Turn.window?]

/-- A poll finds a window of at most a lap, right after the position it looked at. -/
theorem window_found {s : Sequencer cap} {position : Int64} {batch : UInt64}
    (hb : batch ≠ 0)
    (hw : (Poller.window s position (min batch cap.word).toInt64 :
      Act (Sequencer cap) (Option Window)) s = .ok (some win) s) : Sized cap win := by
  obtain ⟨-, hlap⟩ := cap.toInt_batch_bounds hb
  have hlow := position.le_toInt
  have hone := Checked.toInt_one
  unfold Poller.window at hw
  obtain ⟨first, _, hfirst, hw⟩ := Act.of_bind_ok hw
  obtain ⟨limit, _, hlimit, hw⟩ := Act.of_bind_ok hw
  have hfirst := Checked.of_add_ok hfirst
  have hlimit := Checked.of_add_ok hlimit
  by_cases hempty : min s.cursor limit < first
  · rw [if_pos hempty] at hw
    simp at hw
  rw [if_neg hempty] at hw
  obtain ⟨highest, _, -, hw⟩ := Act.of_bind_ok hw
  obtain ⟨low, _, -, hw⟩ := Act.of_bind_ok hw
  by_cases houtside : highest < low ∨ min s.cursor limit < highest
  · rw [if_pos houtside] at hw
    simp at hw
  rw [if_neg houtside] at hw
  by_cases hnone : highest < first
  · rw [if_pos hnone] at hw
    simp at hw
  rw [if_neg hnone] at hw
  obtain rfl : (⟨first, highest⟩ : Window) = win := by
    simpa using (EStateM.Result.ok.inj hw).1
  obtain ⟨-, hreached⟩ := not_or.mp houtside
  rw [Int64.lt_iff_toInt_lt, Sequencer.toInt_min] at hreached
  rw [Int64.lt_iff_toInt_lt] at hnone
  refine ⟨?_, ?_, ?_⟩ <;> simp only <;> omega

theorem outstanding_of_turn {turn : Turn} (hq : c.turns q = turn) :
    c.Outstanding q win ↔ turn.window? = some win := by
  rw [Outstanding, hq]

section Lines
variable {line : List (Q × Window)}

/-- Turns that leave the same windows outstanding leave the line as it is. -/
theorem Line.keep (h : c.Line line) (same : ∀ r win, c'.Outstanding r win ↔ c.Outstanding r win)
    (claims : c'.claims = c.claims) (released : c'.released = c.released) : c'.Line line := by
  refine ⟨h.nodup, fun r win => ?_, ?_⟩
  · rw [h.mem, same]
  · rw [claims, released]
    exact h.claims

/-- A claim comes last in the line. -/
theorem Line.claim (h : c.Line line) (free : ∀ win, ¬ c.Outstanding q win)
    (own : ∀ win', c'.Outstanding q win' ↔ win = win')
    (others : ∀ r, r ≠ q → ∀ win, c'.Outstanding r win ↔ c.Outstanding r win)
    (claims : c'.claims = c.claims ++ [win]) (released : c'.released = c.released) :
    c'.Line (line ++ [(q, win)]) := by
  constructor
  · rw [List.map_append, List.map_singleton, List.nodup_append]
    refine ⟨h.nodup, List.nodup_singleton q, ?_⟩
    intro r hr r' hr' he
    obtain ⟨⟨_, win'⟩, hmem, rfl⟩ := List.mem_map.mp hr
    obtain rfl := List.mem_singleton.mp hr'
    obtain rfl := he
    exact free win' ((h.mem _ win').mp hmem)
  · intro r win'
    by_cases hr : r = q
    · subst hr
      have hnot : (r, win') ∉ line := fun hmem => free win' ((h.mem r win').mp hmem)
      rw [own]
      simp [hnot, eq_comm]
    · simp [hr, h.mem, others r hr]
  · rw [claims, released, h.claims]
    simp

/-- The first window of the line may be released. -/
theorem Line.release (h : c.Line ((q, win) :: line)) (own : ∀ win', ¬ c'.Outstanding q win')
    (others : ∀ r, r ≠ q → ∀ win, c'.Outstanding r win ↔ c.Outstanding r win)
    (claims : c'.claims = c.claims) (released : c'.released = c.released ++ [win]) :
    c'.Line line := by
  obtain ⟨hfirst, hrest⟩ : q ∉ line.map Prod.fst ∧ (line.map Prod.fst).Nodup :=
    List.nodup_cons.mp h.nodup
  refine ⟨hrest, fun r win' => ?_, ?_⟩
  · by_cases hr : r = q
    · subst hr
      have hnot : (r, win') ∉ line := fun hmem =>
        hfirst (List.mem_map_of_mem (f := Prod.fst) hmem)
      simp [hnot, own]
    · rw [others r hr, ← h.mem]
      simp [hr]
  · rw [claims, released, h.claims]
    simp

/-- The windows that are not released line up from gating to the position. -/
theorem Sound.follows_line (h : c.Sound start) (hline : c.Line line) :
    Follows c.sequencer.gating (line.map Prod.snd) ∧
      endOf c.sequencer.gating (line.map Prod.snd) = c.position := by
  have hfollows := h.follows
  rw [hline.claims, follows_append, ← h.gating] at hfollows
  refine ⟨hfollows.2, ?_⟩
  rw [h.position, hline.claims, endOf_append, ← h.gating]

/-- The window that begins right after gating is the first in line. -/
theorem Line.eq_cons (hline : c.Line line)
    (follows : Follows c.sequencer.gating (line.map Prod.snd)) (hq : c.Outstanding q win)
    (turn : win.first.toInt = c.sequencer.gating.toInt + 1) :
    ∃ rest, line = (q, win) :: rest := by
  cases line with
  | nil => exact absurd ((hline.mem q win).mpr hq) (by simp)
  | cons first rest =>
    obtain ⟨hfirst, hle, hrest⟩ := follows
    rcases List.mem_cons.mp ((hline.mem q win).mpr hq) with rfl | hlater
    · exact ⟨rest, rfl⟩
    · have := hrest.lt_first (List.mem_map_of_mem (f := Prod.snd) hlater)
      simp only at this
      omega

end Lines

namespace Sound

theorem sized (h : c.Sound start) (hq : c.Outstanding q win) : Sized cap win := by
  obtain ⟨line, hline⟩ := h.line
  apply h.claims
  rw [hline.claims, List.mem_append]
  exact Or.inr (List.mem_map_of_mem (f := Prod.snd) ((hline.mem q win).mpr hq))

/-- A release has its turn if its window begins right after gating, and otherwise
waits without changing anything. -/
theorem release_eq (h : c.Sound start) (hq : c.Outstanding q win) :
    Poller.release Part.first Part.second win (c.sequencer, c.poller) =
      if win.first.toInt = c.sequencer.gating.toInt + 1 then
        .ok () (Poller.afterRelease win c.sequencer, c.poller)
      else .error .stalled (c.sequencer, c.poller) := by
  have hwin := h.sized hq
  have hlap := hwin.lap
  have hslots := cap.slots_le_int
  split
  · rename_i hturn
    exact Poller.release_eq Part.lawful_first Part.lawful_second (w := (c.sequencer, c.poller))
      hturn hwin.le (by omega)
  · rename_i hearly
    exact Poller.release_stalled Part.lawful_first Part.lawful_second
      (w := (c.sequencer, c.poller)) h.competing hearly hwin.start hwin.le

theorem release_spec (h : c.Sound start) (hq : c.Outstanding q win) {s : Sequencer cap}
    {poller : Poller}
    (hs : Poller.release Part.first Part.second win (c.sequencer, c.poller) = .ok () (s, poller)) :
    win.first.toInt = c.sequencer.gating.toInt + 1 ∧ s = Poller.afterRelease win c.sequencer ∧
      poller = c.poller := by
  rw [h.release_eq hq] at hs
  split at hs
  · rename_i hturn
    obtain ⟨rfl, rfl⟩ : Poller.afterRelease win c.sequencer = s ∧ c.poller = poller := by
      simpa using hs
    exact ⟨hturn, rfl, rfl⟩
  · simp at hs

theorem others (h : c.Sound start) {s : Sequencer cap} (hs : s.gating = c.sequencer.gating) :
    ({ c with sequencer := s } : WindowReleases cap Q).Sound start := by
  have hposition : ({ c with sequencer := s } : WindowReleases cap Q).position = c.position := by
    change c.poller.position s = c.poller.position c.sequencer
    simp only [Poller.position, hs]
  obtain ⟨line, hline⟩ := h.line
  refine ⟨h.competing, ⟨line, hline.keep (fun _ _ => Iff.rfl) rfl rfl⟩, h.follows, ?_, ?_, h.claims,
    h.found⟩
  · exact hs.trans h.gating
  · exact hposition.trans h.position

variable [DecidableEq Q]

/-- A consumer that goes on without claiming or releasing anything. -/
theorem goTo (h : c.Sound start) {turn : Turn} (same : turn.window? = (c.turns q).window?)
    (found : ∀ win, turn = .found win → Sized cap win) : (c.goTo q turn).Sound start := by
  obtain ⟨line, hline⟩ := h.line
  refine ⟨h.competing, ⟨line, hline.keep (fun r win => ?_) rfl rfl⟩, h.follows, h.gating,
    h.position, h.claims, fun r win hr => ?_⟩
  · by_cases hr : r = q
    · subst hr
      simp [Outstanding, WindowReleases.goTo, same]
    · simp [Outstanding, WindowReleases.goTo, hr]
  · by_cases hrq : r = q
    · subst hrq
      exact found win (by simpa [WindowReleases.goTo] using hr)
    · exact h.found r win (by simpa [WindowReleases.goTo, hrq] using hr)

theorem claim (h : c.Sound start) (hq : c.turns q = .found win)
    (unmoved : c.position = win.first - 1) :
    ({ c with
      poller := c.poller.claim win
      claims := c.claims ++ [win] }.goTo q (.draining win 0)).Sound start := by
  have hwin := h.found q win hq
  have hstart := hwin.start
  obtain ⟨line, hline⟩ := h.line
  have hline' : Line ({ c with
      poller := c.poller.claim win
      claims := c.claims ++ [win] }.goTo q (.draining win 0)) (line ++ [(q, win)]) := by
    refine hline.claim ?_ ?_ ?_ rfl rfl
    · intro win'
      simp [Outstanding, hq, Turn.window?]
    · intro win'
      simp [Outstanding, WindowReleases.goTo, Turn.window?]
    · intro r hr win'
      simp [Outstanding, WindowReleases.goTo, hr]
  refine ⟨?_, ⟨_, hline'⟩, ?_, h.gating, ?_, ?_, fun r win' hr => ?_⟩
  · exact (c.poller.consumer_claim win).trans h.competing
  · change Follows start.gating (c.claims ++ [win])
    rw [follows_concat, ← h.position, unmoved, Checked.toInt_pred (by omega)]
    exact ⟨h.follows, by omega, hwin.le⟩
  · change (c.poller.claim win).position c.sequencer = endOf start.gating (c.claims ++ [win])
    rw [Poller.position_claim, h.competing, endOf_concat]
    simp
  · intro win' hwin'
    rcases List.mem_append.mp hwin' with hold | hnew
    · exact h.claims win' hold
    · rw [List.mem_singleton.mp hnew]
      exact hwin
  · by_cases hrq : r = q
    · subst hrq
      simp [WindowReleases.goTo] at hr
    · exact h.found r win' (by simpa [WindowReleases.goTo, hrq] using hr)

theorem release (h : c.Sound start) (hq : c.Outstanding q win) {s : Sequencer cap}
    {poller : Poller}
    (hs : Poller.release Part.first Part.second win (c.sequencer, c.poller) = .ok () (s, poller)) :
    ({ c with
      sequencer := s
      poller
      released := c.released ++ [win] }.goTo q .idle).Sound start := by
  obtain ⟨hturn, rfl, rfl⟩ := h.release_spec hq hs
  obtain ⟨line, hline⟩ := h.line
  obtain ⟨rest, rfl⟩ := hline.eq_cons (h.follows_line hline).1 hq hturn
  have hline' : Line ({ c with
      sequencer := Poller.afterRelease win c.sequencer
      released := c.released ++ [win] }.goTo q .idle) rest := by
    refine hline.release ?_ ?_ rfl rfl
    · intro win'
      simp [Outstanding, WindowReleases.goTo, Turn.window?]
    · intro r hr win'
      simp [Outstanding, WindowReleases.goTo, hr]
  refine ⟨h.competing, ⟨rest, hline'⟩, h.follows, ?_, ?_, h.claims, fun r win' hr => ?_⟩
  · exact endOf_concat.symm
  · change c.poller.position (Poller.afterRelease win c.sequencer) = endOf start.gating c.claims
    rw [Poller.position_afterRelease, h.competing]
    exact h.position
  · by_cases hrq : r = q
    · subst hrq
      simp [WindowReleases.goTo] at hr
    · exact h.found r win' (by simpa [WindowReleases.goTo, hrq] using hr)

theorem step (h : c.Sound start) (hstep : Step c c') : c'.Sound start := by
  cases hstep with
  | others hs => exact h.others hs
  | look hq => exact h.goTo (by rw [hq]; rfl) nofun
  | find hq hb hw =>
    apply h.goTo (by rw [hq]; rfl)
    rintro _ ⟨⟩
    exact window_found hb hw
  | leave hq => exact h.goTo (by rw [hq]; rfl) nofun
  | claim hq hposition => exact h.claim hq hposition
  | lose hq => exact h.goTo (by rw [hq]; rfl) nofun
  | drain hq _ => exact h.goTo (by rw [hq]; rfl) nofun
  | finish hq => exact h.goTo (by rw [hq]; rfl) nofun
  | giveUp hq _ => exact h.goTo (by rw [hq]; rfl) nofun
  | release hq hs => exact h.release ((outstanding_of_turn hq).mpr rfl) hs

theorem gating_step (h : c.Sound start) (hstep : Step c c') :
    c.sequencer.gating.toInt ≤ c'.sequencer.gating.toInt := by
  cases hstep with
  | others hs => exact (congrArg Int64.toInt hs).ge
  | look | find | leave | claim | lose | drain | finish | giveUp => exact le_refl _
  | release hq hs =>
    have hout := (outstanding_of_turn hq).mpr rfl
    obtain ⟨hturn, rfl, -⟩ := h.release_spec hout hs
    have hle := (h.sized hout).le
    change c.sequencer.gating.toInt ≤ Int64.toInt (Window.last _)
    omega

omit [DecidableEq Q]

/-- The releases of the outstanding windows cover what is claimed and not released. -/
theorem partition (h : c.Sound start) {line : List (Q × Window)} (hline : c.Line line) :
    Sequencer.Partition (line.map fun entry => entry.2.move) c.sequencer.gating c.position := by
  obtain ⟨hfollows, hend⟩ := h.follows_line hline
  have hpart := hfollows.partition
  rwa [hend, List.map_map] at hpart

theorem range_move (h : c.Sound start) (hq : c.Outstanding q win) :
    win.move.range = Set.Icc win.first.toInt win.last.toInt :=
  Window.range_move (h.sized hq).start

/-- No sequence is in the windows of two consumers. -/
theorem disjoint (h : c.Sound start) {r : Q} {win' : Window} (hne : q ≠ r)
    (hq : c.Outstanding q win) (hr : c.Outstanding r win') :
    Disjoint (Set.Icc win.first.toInt win.last.toInt)
      (Set.Icc win'.first.toInt win'.last.toInt) := by
  obtain ⟨line, hline⟩ := h.line
  have hapart := (h.partition hline).apart
  rw [List.pairwise_map] at hapart
  have : Std.Symm fun e e' : Q × Window => Disjoint e.2.move.range e'.2.move.range :=
    ⟨fun _ _ hd => hd.symm⟩
  have hpair := hapart.forall ((hline.mem q win).mpr hq) ((hline.mem r win').mpr hr)
    (by simp [hne])
  rwa [h.range_move hq, h.range_move hr] at hpair

/-- What is claimed and not released is in the windows of the consumers. -/
theorem covered (h : c.Sound start) (t : ℤ) :
    t ∈ Set.Ioc c.sequencer.gating.toInt c.position.toInt ↔
      ∃ q win, c.Outstanding q win ∧ t ∈ Set.Icc win.first.toInt win.last.toInt := by
  obtain ⟨line, hline⟩ := h.line
  rw [(h.partition hline).union]
  constructor
  · rintro ⟨m, hm, ht⟩
    obtain ⟨⟨q, win⟩, hmem, rfl⟩ := List.mem_map.mp hm
    have hq := (hline.mem q win).mp hmem
    exact ⟨q, win, hq, h.range_move hq ▸ ht⟩
  · rintro ⟨q, win, hq, ht⟩
    refine ⟨win.move, List.mem_map_of_mem ((hline.mem q win).mpr hq), ?_⟩
    rwa [h.range_move hq]

theorem gating_lt (h : c.Sound start) (hq : c.Outstanding q win) :
    c.sequencer.gating.toInt < win.first.toInt := by
  obtain ⟨line, hline⟩ := h.line
  exact ((h.follows_line hline).1.lt_first
    (List.mem_map_of_mem (f := Prod.snd) ((hline.mem q win).mpr hq))).1

/-- Of the outstanding windows one begins right after gating. -/
theorem existsUnique_first (h : c.Sound start) (some : ∃ q win, c.Outstanding q win) :
    ∃! q, ∃ win, c.Outstanding q win ∧ win.first.toInt = c.sequencer.gating.toInt + 1 := by
  obtain ⟨line, hline⟩ := h.line
  have hfollows := (h.follows_line hline).1
  cases line with
  | nil =>
    obtain ⟨q, win, hq⟩ := some
    exact absurd ((hline.mem q win).mpr hq) (by simp)
  | cons first rest =>
    obtain ⟨q, win⟩ := first
    have hturn : win.first.toInt = c.sequencer.gating.toInt + 1 := hfollows.1
    refine ⟨q, ⟨win, (hline.mem q win).mp List.mem_cons_self, hturn⟩, ?_⟩
    rintro r ⟨win', hr, hturn'⟩
    obtain ⟨rest', he⟩ := hline.eq_cons hfollows hr hturn'
    exact congrArg Prod.fst (List.cons.inj he).1.symm

theorem gating_eq_or (h : c.Sound start) :
    c.sequencer.gating = start.gating ∨ ∃ win ∈ c.claims, c.sequencer.gating = win.last := by
  obtain ⟨line, hline⟩ := h.line
  rw [h.gating]
  rcases endOf_eq_or start.gating c.released with hnone | ⟨win, hwin, hend⟩
  · exact Or.inl hnone
  · refine Or.inr ⟨win, ?_, hend⟩
    rw [hline.claims]
    exact List.mem_append_left _ hwin

theorem gating_eq_position (h : c.Sound start) (none : ∀ q win, ¬ c.Outstanding q win) :
    c.sequencer.gating = c.position := by
  obtain ⟨line, hline⟩ := h.line
  have hempty : line = [] := by
    apply List.eq_nil_iff_forall_not_mem.mpr
    rintro ⟨q, win⟩ hmem
    exact none q win ((hline.mem q win).mp hmem)
  subst hempty
  exact (h.follows_line hline).2

end Sound

variable [DecidableEq Q]

theorem Sound.run (h : c.Sound start) (hrun : Relation.ReflTransGen Step c c') :
    c'.Sound start ∧ c.sequencer.gating.toInt ≤ c'.sequencer.gating.toInt := by
  induction hrun with
  | refl => exact ⟨h, le_refl _⟩
  | tail _ hstep ih => exact ⟨ih.1.step hstep, ih.2.trans (ih.1.gating_step hstep)⟩

theorem Reachable.sound (h : c.Reachable start) : c.Sound start :=
  ((sound_new start).run h).1

/-- Competing consumers hand gating off in the order of their claims. In every
reachable state the outstanding windows are consecutive and disjoint, and make up
exactly what is claimed and not released. Gating only moves forward, from one end
of a claimed window to the next, and never into a window that is being drained. The
window right after gating is the one whose release goes through, and with none
outstanding gating is where the claims end. Moves of gating that cover a range are
all made in whatever order they are attempted, and take gating to its end. -/
theorem handed_off_in_order (h : c.Reachable start) :
    (∃ line, c.Line line ∧ Follows c.sequencer.gating (line.map Prod.snd) ∧
      endOf c.sequencer.gating (line.map Prod.snd) = c.position) ∧
    (∀ q r win win', q ≠ r → c.Outstanding q win → c.Outstanding r win' →
      Disjoint (Set.Icc win.first.toInt win.last.toInt)
        (Set.Icc win'.first.toInt win'.last.toInt)) ∧
    (∀ t, t ∈ Set.Ioc c.sequencer.gating.toInt c.position.toInt ↔
      ∃ q win, c.Outstanding q win ∧ t ∈ Set.Icc win.first.toInt win.last.toInt) ∧
    (∀ c', Relation.ReflTransGen Step c c' →
      c.sequencer.gating.toInt ≤ c'.sequencer.gating.toInt) ∧
    (c.sequencer.gating = start.gating ∨ ∃ win ∈ c.claims, c.sequencer.gating = win.last) ∧
    (∀ q win handed, c.turns q = .draining win handed →
      c.sequencer.gating.toInt < win.first.toInt) ∧
    ((∃ q win, c.Outstanding q win) →
      ∃! q, ∃ win, c.Outstanding q win ∧ win.first.toInt = c.sequencer.gating.toInt + 1) ∧
    (∀ q win, c.turns q = .over win →
      Poller.release Part.first Part.second win (c.sequencer, c.poller) =
        if win.first.toInt = c.sequencer.gating.toInt + 1 then
          .ok () (Poller.afterRelease win c.sequencer, c.poller)
        else .error .stalled (c.sequencer, c.poller)) ∧
    ((∀ q win, ¬ c.Outstanding q win) → c.sequencer.gating = c.position) ∧
    ∀ (s : Sequencer cap) (moves : List Sequencer.Move) (last : Int64),
      Sequencer.Partition moves s.gating last →
        Sequencer.settle moves s = ([], s.withGating last) ∧
        ∀ pending s', Relation.ReflTransGen Sequencer.Attempt (moves, s) (pending, s') →
          (pending = [] → s' = s.withGating last) ∧
          (pending ≠ [] → ∃ m ∈ pending, (s'.advanceGating m.target m.observed).1 = true) := by
  have hsound := h.sound
  refine ⟨?_, fun q r win win' => hsound.disjoint, hsound.covered, fun c' hrun => ?_,
    hsound.gating_eq_or, fun q win handed hq => ?_, hsound.existsUnique_first,
    fun q win hq => ?_, hsound.gating_eq_position, fun s moves last hmoves => ⟨?_, ?_⟩⟩
  · obtain ⟨line, hline⟩ := hsound.line
    exact ⟨line, hline, hsound.follows_line hline⟩
  · exact (hsound.run hrun).2
  · exact hsound.gating_lt ((outstanding_of_turn hq).mpr rfl)
  · exact hsound.release_eq ((outstanding_of_turn hq).mpr rfl)
  · exact Sequencer.settle_eq hmoves
  · intro pending s' hrun
    obtain ⟨hleft, hs⟩ := hmoves.attempts hrun
    constructor
    · rintro rfl
      rw [hs, hleft.eq_of_nil]
    · exact hleft.exists_ready

/-- The consumer of the later window is done first, and has to wait for the other one,
whose callback was cut short. -/
theorem handed_off_in_order_late :
    ∃ c : WindowReleases .two ℕ, c.Reachable ⟨1, -1, .single 1 (-1), none⟩ ∧
      c.turns 0 = .over ⟨0, 0⟩ ∧ c.turns 1 = .over ⟨1, 1⟩ ∧
      Poller.release Part.first Part.second ⟨1, 1⟩ (c.sequencer, c.poller) =
        .error .stalled (c.sequencer, c.poller) ∧
      Poller.release Part.first Part.second ⟨0, 0⟩ (c.sequencer, c.poller) =
        .ok () (c.sequencer.withGating 0, c.poller) := by
  have h₀ : Reachable ⟨1, -1, .single 1 (-1), none⟩
      (new ⟨1, -1, .single 1 (-1), none⟩ : WindowReleases .two ℕ) := .refl
  have h₁ := h₀.tail (.look (q := 0) rfl)
  have h₂ : Reachable _ ⟨_, _, Function.update _ 0 (.found ⟨0, 0⟩), _, _⟩ :=
    h₁.tail (.find rfl (show (1 : UInt64) ≠ 0 by decide) rfl)
  have h₃ := h₂.tail (.claim (q := 0) rfl rfl)
  have h₄ := h₃.tail (.look (q := 1) rfl)
  have h₅ : Reachable _ ⟨_, _, Function.update _ 1 (.found ⟨1, 1⟩), _, _⟩ :=
    h₄.tail (.find rfl (show (1 : UInt64) ≠ 0 by decide) rfl)
  have h₆ := h₅.tail (.claim (q := 1) rfl rfl)
  have h₇ := h₆.tail (.drain (q := 1) rfl (show 0 < Window.size ⟨1, 1⟩ by decide))
  have h₈ := h₇.tail (.finish (q := 1) rfl)
  have h₉ := h₈.tail (.giveUp (q := 0) rfl (show 0 < Window.size ⟨0, 0⟩ by decide))
  obtain ⟨-, -, -, -, -, -, -, hrelease, -⟩ := handed_off_in_order h₉
  exact ⟨_, h₉, rfl, rfl, hrelease 1 ⟨1, 1⟩ rfl, hrelease 0 ⟨0, 0⟩ rfl⟩

end WindowReleases

end LapRing
