import EdgeTts.Lib.Columns
import EdgeTts.Lib.StableSort
import EdgeTts.Core.Chunk

/-!
# `cli/VoiceFormatter.cpp`

The table of the voices.  `std::sort` leaves open how voices with equal names are ordered, so
it is an argument (`Sorting`).  The lines show their cells in the columns of one table
(`format_isTable`), and the last cell of a voice decides whether its line ends with blanks.
-/
namespace EdgeTts

open Columns (Shows offset)
open StableSort (Sorting StrictWeak)

/-- `to_string(VoiceGender)`. -/
def VoiceGender.toString : VoiceGender → Bytes
  | .female => lit "Female"
  | .male => lit "Male"
  | .unknown => lit "Unknown"

namespace VoiceFormatter

def space : UInt8 := 0x20

def newline : UInt8 := 0x0A

/-- `join`. -/
def join : List Bytes → Bytes
  | [] => []
  | [part] => part
  | part :: parts => part ++ lit ", " ++ join parts

/-- `pad`. -/
def pad (str : Bytes) (width : Nat) : Bytes :=
  if str.length ≥ width then str else str ++ List.replicate (width - str.length) space

/-- The loop of `make_row`, from the column `i` on. -/
def makeRowLoop (widths : List Nat) (lastColRaw : Bool) : Nat → List Bytes → Bytes → Bytes
  | _, [], line => line
  | i, cell :: cells, line =>
      let line := if i > 0 then line ++ lit "  " else line
      let line :=
        if lastColRaw && cells.isEmpty then line ++ cell else line ++ pad cell (widths.getD i 0)
      makeRowLoop widths lastColRaw (i + 1) cells line

/-- `make_row`. -/
def makeRow (cells : List Bytes) (widths : List Nat) (lastColRaw : Bool) : Bytes :=
  makeRowLoop widths lastColRaw 0 cells []

def headers : List Bytes :=
  [lit "Name", lit "Gender", lit "ContentCategories", lit "VoicePersonalities"]

/-- The cells of a voice. -/
def cellsOf (v : Voice) : List Bytes :=
  [v.shortName, v.gender.toString, join v.contentCategories, join v.voicePersonalities]

/-- The loop over the columns that widens them for a row. -/
def widen (widths : List Nat) (row : List Bytes) : List Nat :=
  List.zipWith max widths (row.map List.length)

/-- The widths of the columns. -/
def columnWidths (rows : List (List Bytes)) : List Nat :=
  rows.foldl widen (headers.map List.length)

/-- The comparison of two indices. -/
def byShortName (voices : List Voice) (a b : Fin voices.length) : Bool :=
  decide ((voices.get a).shortName < (voices.get b).shortName)

/-- The cell rows, in the order of the names. -/
def sortedRows (std : Sorting) (voices : List Voice) : List (List Bytes) :=
  let order := std.sort (byShortName voices) (List.finRange voices.length)
  order.map fun idx => cellsOf (voices.get idx)

/-- `VoiceFormatter::format`. -/
def format (std : Sorting) (voices : List Voice) : Bytes :=
  let rows := sortedRows std voices
  let widths := columnWidths rows
  let sep := widths.map fun width => List.replicate width 0x2D
  makeRow headers widths true ++ [newline] ++
    (makeRow sep widths true ++ [newline] ++
      rows.flatMap fun row => makeRow row widths true ++ [newline])

/-! ## Rows -/

theorem pad_eq {str : Bytes} {width : Nat} (h : str.length ≤ width) :
    pad str width = str ++ List.replicate (width - str.length) space := by
  unfold pad
  by_cases hfull : str.length ≥ width
  · rw [if_pos hfull, show width - str.length = 0 by omega, List.replicate_zero, List.append_nil]
  · rw [if_neg hfull]

/-- **A row shows its cells in the columns**, where none is wider than its column. -/
theorem makeRowLoop_shows {widths : List Nat} {cells : List Bytes} (hne : cells ≠ [])
    {i : Nat} {line : Bytes}
    (fits : ∀ c cell, cells[c]? = some cell → cell.length ≤ widths.getD (i + c) 0) :
    ∃ row, makeRowLoop widths true i cells line =
        line ++ (if i > 0 then lit "  " else []) ++ row ∧
      Shows space 2 (offset 2 fun j => widths.getD (i + j) 0) cells row := by
  induction cells generalizing i line with
  | nil => exact absurd rfl hne
  | cons cell cells ih =>
      have hsep : (if i > 0 then line ++ lit "  " else line) =
          line ++ if i > 0 then lit "  " else [] := by
        by_cases hi : i > 0
        · rw [if_pos hi, if_pos hi]
        · rw [if_neg hi, if_neg hi, List.append_nil]
      rw [makeRowLoop, hsep]
      by_cases hlast : cells = []
      · subst hlast
        exact ⟨cell, rfl, Columns.shows_singleton _ cell⟩
      · have hwidth : cell.length ≤ widths.getD i 0 := fits 0 cell rfl
        have fits' : ∀ c cell', cells[c]? = some cell' →
            cell'.length ≤ widths.getD (i + 1 + c) 0 := by
          intro c cell' hcell
          rw [show i + 1 + c = i + (c + 1) by omega]
          exact fits (c + 1) cell' hcell
        obtain ⟨row, hrow, hshows⟩ := @ih hlast (i + 1)
          (line ++ (if i > 0 then lit "  " else []) ++ pad cell (widths.getD i 0)) fits'
        have hcolumns : (fun j => widths.getD (i + 1 + j) 0) =
            fun j => widths.getD (i + (j + 1)) 0 := by
          funext j
          rw [show i + 1 + j = i + (j + 1) by omega]
        rw [hcolumns] at hshows
        refine ⟨_, ?_, hshows.cons hlast hwidth⟩
        have hnext : (if i + 1 > 0 then lit "  " else []) = lit "  " := if_pos (by omega)
        rw [if_neg (by simp [hlast]), hrow, hnext, pad_eq hwidth, Nat.add_zero,
          List.replicate_add]
        simp only [List.append_assoc]
        rfl

/-- The cells of a row are not wider than the columns. -/
def FitsIn (widths : List Nat) (row : List Bytes) : Prop :=
  ∀ c cell, row[c]? = some cell → cell.length ≤ widths.getD c 0

theorem makeRow_shows {widths : List Nat} {cells : List Bytes} (hne : cells ≠ [])
    (fits : FitsIn widths cells) :
    Shows space 2 (offset 2 fun j => widths.getD j 0) cells (makeRow cells widths true) := by
  have fits' : ∀ c cell, cells[c]? = some cell → cell.length ≤ widths.getD (0 + c) 0 := by
    intro c cell hcell
    rw [Nat.zero_add]
    exact fits c cell hcell
  obtain ⟨row, hrow, hshows⟩ := @makeRowLoop_shows widths cells hne 0 [] fits'
  simp only [Nat.zero_add] at hshows
  rw [makeRow, hrow]
  exact hshows

/-- A row has the characters of its cells, and blanks. -/
theorem mem_makeRowLoop {widths : List Nat} {raw : Bool} {x : UInt8} (hx : x ≠ space)
    {cells : List Bytes} {i : Nat} {line : Bytes} :
    x ∈ makeRowLoop widths raw i cells line → x ∈ line ∨ ∃ cell ∈ cells, x ∈ cell := by
  induction cells generalizing i line with
  | nil => exact .inl
  | cons cell cells ih =>
      intro h
      have hblank : x ∉ lit "  " := by
        intro hmem
        have hall : ∀ y ∈ lit "  ", y = space := by decide +kernel
        exact hx (hall x hmem)
      have hpad : x ∈ pad cell (widths.getD i 0) → x ∈ cell := by
        unfold pad
        split
        · exact id
        · intro hmem
          rcases List.mem_append.mp hmem with hmem | hmem
          · exact hmem
          · exact absurd (List.eq_of_mem_replicate hmem) hx
      rw [makeRowLoop] at h
      rcases ih h with hline | ⟨cell', hcell', hmem⟩
      · have hcell : x ∈ (if i > 0 then line ++ lit "  " else line) ∨ x ∈ cell := by
          split at hline
          · exact List.mem_append.mp hline
          · exact (List.mem_append.mp hline).imp_right hpad
        rcases hcell with hmem | hmem
        · split at hmem
          · exact .inl ((List.mem_append.mp hmem).resolve_right hblank)
          · exact .inl hmem
        · exact .inr ⟨cell, List.mem_cons_self, hmem⟩
      · exact .inr ⟨cell', List.mem_cons_of_mem _ hcell', hmem⟩

/-! ## Widths -/

theorem getD_zipWith_max {a b : List Nat} (h : a.length = b.length) (c : Nat) :
    (List.zipWith max a b).getD c 0 = max (a.getD c 0) (b.getD c 0) := by
  simp only [List.getD_eq_getElem?_getD, List.getElem?_zipWith]
  by_cases hc : c < a.length
  · rw [List.getElem?_eq_getElem hc, List.getElem?_eq_getElem (h ▸ hc)]
    rfl
  · rw [List.getElem?_eq_none (by omega), List.getElem?_eq_none (by omega)]
    rfl

theorem getD_widen {widths : List Nat} {row : List Bytes} (h : row.length = widths.length)
    (c : Nat) : (widen widths row).getD c 0 =
      max (widths.getD c 0) ((row.map List.length).getD c 0) :=
  getD_zipWith_max (by rw [List.length_map, h]) c

theorem length_widen {widths : List Nat} {row : List Bytes} (h : row.length = widths.length) :
    (widen widths row).length = widths.length := by
  rw [widen, List.length_zipWith, List.length_map, h, Nat.min_self]

/-- **Columns only grow**, and every row fits in the columns at the end. -/
theorem foldl_widen {rows : List (List Bytes)} {widths : List Nat}
    (hlength : ∀ row ∈ rows, row.length = widths.length) :
    (rows.foldl widen widths).length = widths.length ∧
    (∀ c, widths.getD c 0 ≤ (rows.foldl widen widths).getD c 0) ∧
    ∀ row ∈ rows, FitsIn (rows.foldl widen widths) row := by
  induction rows generalizing widths with
  | nil => exact ⟨rfl, fun c => le_refl _, fun row hrow => absurd hrow List.not_mem_nil⟩
  | cons row rows ih =>
      obtain ⟨hrow, hrows⟩ := List.forall_mem_cons.mp hlength
      have hstep := length_widen hrow
      obtain ⟨htotal, hgrow, hfits⟩ := @ih (widen widths row) fun row' hrow' => by
        rw [hrows row' hrow', hstep]
      rw [List.foldl_cons]
      refine ⟨by rw [htotal, hstep], fun c => ?_, List.forall_mem_cons.mpr ⟨?_, hfits⟩⟩
      · have := hgrow c
        rw [getD_widen hrow] at this
        exact le_trans (le_max_left _ _) this
      · intro c cell hcell
        have := hgrow c
        rw [getD_widen hrow] at this
        refine le_trans ?_ (le_trans (le_max_right _ _) this)
        rw [List.getD_eq_getElem?_getD, List.getElem?_map, hcell]
        exact le_refl _

/-- All rows of the table fit in its columns. -/
theorem fitsIn_columnWidths (listed : List Voice) :
    (columnWidths (listed.map cellsOf)).length = headers.length ∧
    FitsIn (columnWidths (listed.map cellsOf)) headers ∧
    ∀ v ∈ listed, FitsIn (columnWidths (listed.map cellsOf)) (cellsOf v) := by
  have hlength : ∀ row ∈ listed.map cellsOf, row.length = (headers.map List.length).length := by
    intro row hrow
    obtain ⟨v, -, rfl⟩ := List.mem_map.mp hrow
    rfl
  obtain ⟨htotal, hgrow, hfits⟩ := foldl_widen hlength
  refine ⟨htotal, fun c cell hcell => ?_, fun v hv => hfits _ (List.mem_map_of_mem hv)⟩
  have := hgrow c
  rw [List.getD_eq_getElem?_getD, List.getElem?_map, hcell] at this
  exact this

/-- A line of dashes of these widths fits. -/
theorem fitsIn_dashes (widths : List Nat) :
    FitsIn widths (widths.map fun width => List.replicate width 0x2D) := by
  intro c cell hcell
  rw [List.getElem?_map, Option.map_eq_some_iff] at hcell
  obtain ⟨width, hwidth, rfl⟩ := hcell
  rw [List.length_replicate, List.getD_eq_getElem?_getD, hwidth]
  exact le_refl _

/-! ## The order of the rows -/

theorem strictWeak_byShortName (voices : List Voice) : StrictWeak (byShortName voices) where
  asymm a b h := by
    rw [byShortName, decide_eq_true_eq] at h
    rw [byShortName, decide_eq_false_iff_not]
    exact List.lt_asymm h
  trans a b c hab hbc := by
    rw [byShortName, decide_eq_false_iff_not] at hab hbc ⊢
    exact List.le_trans (List.not_lt.mp hab) (List.not_lt.mp hbc)

/-- **The rows are the voices in the order of their names.** -/
theorem sortedRows_spec (std : Sorting) (voices : List Voice) :
    ∃ listed : List Voice, sortedRows std voices = listed.map cellsOf ∧ listed.Perm voices ∧
      listed.Pairwise fun v w => v.shortName ≤ w.shortName := by
  have hperm := std.perm (byShortName voices) (List.finRange voices.length)
  have hascending := std.ascending (strictWeak_byShortName voices) (List.finRange voices.length)
  refine ⟨(std.sort (byShortName voices) (List.finRange voices.length)).map voices.get, ?_, ?_, ?_⟩
  · rw [sortedRows, List.map_map]
    rfl
  · have hall := hperm.map voices.get
    rwa [List.map_get_finRange] at hall
  · refine List.pairwise_map.mpr (hascending.imp fun h => ?_)
    exact List.not_lt.mp (of_decide_eq_false h)

/-! ## The table -/

/-- The strings of a voice that are printed have no newline. -/
structure OneLine (v : Voice) : Prop where
  shortName : newline ∉ v.shortName
  contentCategories : ∀ s ∈ v.contentCategories, newline ∉ s
  voicePersonalities : ∀ s ∈ v.voicePersonalities, newline ∉ s

/-- A text is the table of the voices: `listed` has the voices with their lines. -/
structure IsTable (voices : List Voice) (text : Bytes) (start : Nat → Nat)
    (header separator : Bytes) (listed : List (Voice × Bytes)) : Prop where
  perm : (listed.map Prod.fst).Perm voices
  ascending : listed.Pairwise fun p q => p.1.shortName ≤ q.1.shortName
  lines : text = (header :: separator :: listed.map Prod.snd).flatMap fun line => line ++ [newline]
  oneLine : ∀ line ∈ header :: separator :: listed.map Prod.snd, newline ∉ line
  header : Shows space 2 start headers header
  separator : ∃ widths : List Nat, widths.length = headers.length ∧
    Shows space 2 start (widths.map fun width => List.replicate width 0x2D) separator
  rows : ∀ p ∈ listed, Shows space 2 start (cellsOf p.1) p.2

theorem join_cons_cons (part part' : Bytes) (parts : List Bytes) :
    join (part :: part' :: parts) = part ++ lit ", " ++ join (part' :: parts) := rfl

theorem newline_not_mem_join {parts : List Bytes} (h : ∀ s ∈ parts, newline ∉ s) :
    newline ∉ join parts := by
  induction parts with
  | nil => exact List.not_mem_nil
  | cons part parts ih =>
      obtain ⟨hpart, hparts⟩ := List.forall_mem_cons.mp h
      have hcomma : newline ∉ lit ", " := by decide +kernel
      cases parts with
      | nil => exact hpart
      | cons part' parts =>
          rw [join_cons_cons, List.mem_append, List.mem_append, not_or, not_or]
          exact ⟨⟨hpart, hcomma⟩, ih hparts⟩

theorem newline_not_mem_cellsOf {v : Voice} (h : OneLine v) :
    ∀ cell ∈ cellsOf v, newline ∉ cell := by
  have hgender : newline ∉ v.gender.toString := by
    cases v.gender <;> decide +kernel
  rw [cellsOf]
  simp only [List.forall_mem_cons]
  exact ⟨h.shortName, hgender, newline_not_mem_join h.contentCategories,
    newline_not_mem_join h.voicePersonalities, fun cell hcell => absurd hcell List.not_mem_nil⟩

theorem newline_not_mem_makeRow {widths : List Nat} {cells : List Bytes}
    (h : ∀ cell ∈ cells, newline ∉ cell) : newline ∉ makeRow cells widths true := by
  intro hmem
  rcases mem_makeRowLoop (by decide) hmem with hmem | ⟨cell, hcell, hmem⟩
  · exact List.not_mem_nil hmem
  · exact h cell hcell hmem

theorem newline_not_mem_dashes (widths : List Nat) :
    ∀ cell ∈ widths.map fun width => List.replicate width 0x2D, newline ∉ cell := by
  intro cell hcell hmem
  obtain ⟨width, -, rfl⟩ := List.mem_map.mp hcell
  cases List.eq_of_mem_replicate hmem

/-- **The output is a table of the voices**, whichever way `std::sort` orders equal names. -/
theorem format_isTable (std : Sorting) {voices : List Voice} (oneLine : ∀ v ∈ voices, OneLine v) :
    ∃ start header separator listed,
      IsTable voices (format std voices) start header separator listed := by
  obtain ⟨listed, hrows, hperm, hascending⟩ := sortedRows_spec std voices
  obtain ⟨htotal, hheaders, hfits⟩ := fitsIn_columnWidths listed
  have hlisted : ∀ v ∈ listed, OneLine v := fun v hv => oneLine v (hperm.mem_iff.mp hv)
  rw [format, hrows]
  generalize columnWidths (listed.map cellsOf) = widths at htotal hheaders hfits ⊢
  refine ⟨offset 2 fun j => widths.getD j 0, makeRow headers widths true,
    makeRow (widths.map fun width => List.replicate width 0x2D) widths true,
    listed.map fun v => (v, makeRow (cellsOf v) widths true), ?_⟩
  constructor
  · rw [List.map_map]
    exact (List.map_id listed).symm ▸ hperm
  · exact List.pairwise_map.mpr hascending
  · rw [List.flatMap_cons, List.flatMap_cons, List.map_map, List.flatMap_map, List.flatMap_map]
    rfl
  · intro line hline
    rcases List.mem_cons.mp hline with rfl | hline
    · exact newline_not_mem_makeRow (by decide +kernel)
    rcases List.mem_cons.mp hline with rfl | hline
    · exact newline_not_mem_makeRow (newline_not_mem_dashes widths)
    · rw [List.map_map] at hline
      obtain ⟨v, hv, rfl⟩ := List.mem_map.mp hline
      exact newline_not_mem_makeRow (newline_not_mem_cellsOf (hlisted v hv))
  · exact makeRow_shows (by decide) hheaders
  · refine ⟨widths, htotal, makeRow_shows ?_ (fitsIn_dashes widths)⟩
    intro hnil
    rw [List.map_eq_nil_iff.mp hnil] at htotal
    cases htotal
  · intro p hp
    obtain ⟨v, hv, rfl⟩ := List.mem_map.mp hp
    exact makeRow_shows (List.cons_ne_nil _ _) (hfits v hv)

/-! ## Trailing blanks -/

/-- A line ends with a blank only where the last cell of its voice does. -/
def Clean (listed : List (Voice × Bytes)) : Prop :=
  ∀ p ∈ listed, (join p.1.voicePersonalities).getLast? ≠ some space → p.2.getLast? ≠ some space

/-- The line of a voice without personalities ends with the gap before its last cell. -/
theorem IsTable.join_ne_nil {voices : List Voice} {text : Bytes} {start : Nat → Nat}
    {header separator : Bytes} {listed : List (Voice × Bytes)}
    (h : IsTable voices text start header separator listed) (clean : Clean listed) :
    ∀ v ∈ voices, join v.voicePersonalities ≠ [] := by
  intro v hv hnil
  obtain ⟨p, hp, rfl⟩ := List.mem_map.mp (h.perm.mem_iff.mpr hv)
  have hcell : (cellsOf p.1)[2 + 1]? = some [] := congrArg some hnil
  have htrailing : p.2.getLast? = some space :=
    (h.rows p hp).getLast?_of_nil (by decide) rfl hcell
  refine clean p hp ?_ htrailing
  rw [hnil, List.getLast?_nil]
  exact (Option.some_ne_none space).symm

theorem IsTable.clean {voices : List Voice} {text : Bytes} {start : Nat → Nat}
    {header separator : Bytes} {listed : List (Voice × Bytes)}
    (h : IsTable voices text start header separator listed)
    (hjoin : ∀ v ∈ voices, join v.voicePersonalities ≠ []) : Clean listed := by
  intro p hp hlast
  have hne := hjoin p.1 (h.perm.mem_iff.mp (List.mem_map_of_mem hp))
  rw [(h.rows p hp).getLast?_of_ne_nil (c := 3) rfl rfl hne]
  exact hlast

/-- **The table is aligned, and its lines are clean exactly when every voice has something in its
last cell.** -/
theorem format_table_iff (std : Sorting) {voices : List Voice}
    (oneLine : ∀ v ∈ voices, OneLine v) :
    (∃ start header separator listed,
      IsTable voices (format std voices) start header separator listed ∧ Clean listed) ↔
      ∀ v ∈ voices, join v.voicePersonalities ≠ [] := by
  constructor
  · rintro ⟨start, header, separator, listed, htable, hclean⟩
    exact htable.join_ne_nil hclean
  · intro hjoin
    obtain ⟨start, header, separator, listed, htable⟩ := format_isTable std oneLine
    exact ⟨start, header, separator, listed, htable, htable.clean hjoin⟩

/-- A voice of the service, with these personalities. -/
def ariaWith (personalities : List Bytes) : Voice where
  name := lit "Microsoft Server Speech Text to Speech Voice (en-US, AriaNeural)"
  shortName := lit "en-US-AriaNeural"
  gender := .female
  locale := lit "en-US"
  friendlyName := lit "Microsoft Aria Online (Natural) - English (United States)"
  status := lit "GA"
  suggestedCodec := lit "audio-24khz-48kbitrate-mono-mp3"
  contentCategories := [lit "News", lit "Novel"]
  voicePersonalities := personalities
  language := lit "English"

theorem oneLine_ariaWith {personalities : List Bytes} (h : ∀ s ∈ personalities, newline ∉ s) :
    OneLine (ariaWith personalities) where
  shortName := by
    show newline ∉ lit "en-US-AriaNeural"
    decide +kernel
  contentCategories := by
    show ∀ s ∈ [lit "News", lit "Novel"], newline ∉ s
    decide +kernel
  voicePersonalities := h

theorem format_table_iff_aria :
    (∀ v ∈ [ariaWith [lit "Positive", lit "Confident"], ariaWith [lit "Friendly"]], OneLine v) ∧
    ∃ start header separator listed,
      IsTable [ariaWith [lit "Positive", lit "Confident"], ariaWith [lit "Friendly"]]
        (format Sorting.insertion
          [ariaWith [lit "Positive", lit "Confident"], ariaWith [lit "Friendly"]])
        start header separator listed ∧ Clean listed := by
  have oneLine : ∀ v ∈ [ariaWith [lit "Positive", lit "Confident"], ariaWith [lit "Friendly"]],
      OneLine v := by
    refine List.forall_mem_cons.mpr ⟨oneLine_ariaWith (by decide +kernel), ?_⟩
    exact List.forall_mem_singleton.mpr (oneLine_ariaWith (by decide +kernel))
  exact ⟨oneLine, (format_table_iff Sorting.insertion oneLine).mpr (by decide +kernel)⟩

/-- The line of a voice without personalities has trailing blanks. -/
theorem not_format_clean :
    OneLine (ariaWith []) ∧
    ¬ ∃ start header separator listed,
      IsTable [ariaWith []] (format Sorting.insertion [ariaWith []]) start header separator
        listed ∧ Clean listed := by
  refine ⟨oneLine_ariaWith fun s hs => absurd hs List.not_mem_nil, ?_⟩
  rintro ⟨start, header, separator, listed, htable, hclean⟩
  exact htable.join_ne_nil hclean (ariaWith []) List.mem_cons_self rfl

end VoiceFormatter
end EdgeTts
