import Lossless.Config.Sections

/-!
# Layers of settings

Settings of one file over those of another: a setting is that of the first file if it sets it, and else that of
the second one. Laid over styles, such a layer does what its two parts do one after the other. Merging settings
gives the layer except for the blanks, which a first file with a section for them takes over as a whole: what
only the second file says about blanks is lost then.
-/

namespace Lossless
namespace Config

/-- The section gives a value to the setting. -/
def Field.IsSet
    (field : Field σ)
    (settings : σ) : Prop :=
  (field.write settings).isSome = true

/-- A setting that is laid over another value is the one that is set, or else that value. -/
theorem Field.write_layered
    {name : String}
    {schema : List (Text × Value)}
    {read : Positional -> Value -> Option α}
    {write : α -> Value}
    {get : σ -> Option α}
    {set : Option α -> σ -> σ}
    {own under laid : σ}
    {value : α}
    (isUnder : get under = some value)
    (isLaid : get laid = some ((get own).getD value)) :
    (ofFunctions name schema read write get set).write laid =
      ((ofFunctions name schema read write get set).write own <|>
        (ofFunctions name schema read write get set).write under) := by
  change (get laid).map write = ((get own).map write <|> (get under).map write)
  rw [isUnder, isLaid]
  cases get own <;> rfl

namespace SpacingSettings

/-- The settings of a section, and where one is not set that of another section. -/
def onTopOf (settings other : SpacingSettings) : SpacingSettings where
  beforeCall := settings.beforeCall <|> other.beforeCall
  beforeDeclaration := settings.beforeDeclaration <|> other.beforeDeclaration
  aroundAssignment := settings.aroundAssignment <|> other.aroundAssignment
  aroundEquality := settings.aroundEquality <|> other.aroundEquality
  aroundRelational := settings.aroundRelational <|> other.aroundRelational
  aroundAdditive := settings.aroundAdditive <|> other.aroundAdditive
  aroundMultiplicative := settings.aroundMultiplicative <|> other.aroundMultiplicative
  withinCall := settings.withinCall <|> other.withinCall
  withinDeclaration := settings.withinDeclaration <|> other.withinDeclaration
  withinBrackets := settings.withinBrackets <|> other.withinBrackets
  beforeComma := settings.beforeComma <|> other.beforeComma
  afterComma := settings.afterComma <|> other.afterComma

variable {settings other : SpacingSettings}

/-- A layer does what its parts do one after the other. -/
theorem applyTo_onTopOf (style : SpacingStyle) :
    (settings.onTopOf other).applyTo style = settings.applyTo (other.applyTo style) := by
  simp [applyTo, onTopOf]

/-- The style in which every gap that a setting decides holds a blank, or none does. -/
def uniform (value : Bool) : SpacingStyle where
  beforeParentheses := { call := value, declaration := value }
  aroundOperators := ⟨value, value, value, value, value⟩
  within := ⟨value, value, value, value, value⟩
  punctuation := { beforeComma := value, afterComma := value }

/-- What a setting makes of the two values says whether and how it is set. -/
theorem eq_of_getD
    {setting setting' : Option Bool}
    (same : forall value, setting.getD value = setting'.getD value) :
    setting = setting' := by
  have on := same true
  have off := same false
  cases setting <;> cases setting' <;> simp_all

/-- Settings that do the same to every style are the same. -/
theorem eq_of_applyTo (same : forall style, settings.applyTo style = other.applyTo style) :
    settings = other := by
  have parts (value : Bool) := same (uniform value)
  simp only [applyTo, uniform, SpacingStyle.mk.injEq, BeforeParentheses.mk.injEq, AroundOperators.mk.injEq,
    WithinDelimiters.mk.injEq, BesidePunctuation.mk.injEq] at parts
  cases settings
  cases other
  rw [mk.injEq]
  refine ⟨?_, ?_, ?_, ?_, ?_, ?_, ?_, ?_, ?_, ?_, ?_, ?_⟩ <;> exact eq_of_getD fun value => by grind

/-- Every setting that the other section sets is set in this one. -/
def Covers (settings other : SpacingSettings) : Prop :=
  forall toggle, toggle ∈ fields -> toggle.IsSet other -> toggle.IsSet settings

/-- Over a section that it covers, a section is the whole layer. -/
theorem onTopOf_eq_self_iff : settings.onTopOf other = settings ↔ settings.Covers other := by
  have kept (setting setting' : Option Bool) :
      (setting <|> setting') = setting ↔ (setting'.isSome = true -> setting.isSome = true) := by
    cases setting <;> cases setting' <;> simp
  have setting (name : String) (get : SpacingSettings -> Option Bool)
      (set : Option Bool -> SpacingSettings -> SpacingSettings) (section' : SpacingSettings) :
      (Field.truth name "" get set).IsSet section' ↔ (get section').isSome = true := by
    simp [Field.IsSet, Field.truth, Field.ofFunctions]
  obtain ⟨beforeCall, beforeDeclaration, aroundAssignment, aroundEquality, aroundRelational, aroundAdditive,
    aroundMultiplicative, withinCall, withinDeclaration, withinBrackets, beforeComma, afterComma⟩ := settings
  simp only [Covers, fields, List.forall_mem_cons, setting, onTopOf, mk.injEq, kept, List.not_mem_nil, false_implies,
    implies_true, and_true]

/-- A setting is the one of the section, or else that of the style. -/
theorem write_applyTo
    {toggle : Field SpacingSettings}
    (member : toggle ∈ fields)
    (style : SpacingStyle) :
    toggle.write (.ofStyle (settings.applyTo style)) = (toggle.write settings <|> toggle.write (.ofStyle style)) := by
  simp only [fields, List.mem_cons, List.not_mem_nil, or_false] at member
  rcases member with rfl | rfl | rfl | rfl | rfl | rfl | rfl | rfl | rfl | rfl | rfl | rfl <;>
    exact Field.write_layered rfl rfl

end SpacingSettings

namespace FormatterSettings

variable (settings other : FormatterSettings)

/-- A setting outside the blanks is the one that is set, or else that of the styles. -/
theorem write_applyTo
    {setting : Field FormatterSettings}
    (member : setting ∈ fields)
    (isNoSection : setting.name ≠ "spaces".toList)
    (styles : Styles) :
    setting.write (.ofStyles (settings.applyTo styles)) =
      (setting.write settings <|> setting.write (.ofStyles styles)) := by
  simp only [fields, List.mem_cons, List.not_mem_nil, or_false] at member
  rcases member with rfl | rfl | rfl | rfl | rfl | rfl | rfl | rfl | rfl | rfl | rfl
  case inr.inr.inr.inr.inr.inr.inr.inr.inr.inr => exact absurd rfl isNoSection
  all_goals exact Field.write_layered rfl rfl

/-- A setting outside the blanks is that of the first file, or else that of the second one. -/
theorem write_mergeWith
    {setting : Field FormatterSettings}
    (member : setting ∈ fields)
    (isNoSection : setting.name ≠ "spaces".toList) :
    setting.write (settings.mergeWith other) = (setting.write settings <|> setting.write other) := by
  have one {α : Type} (write : α -> Value) (first second : Option α) :
      (first <|> second).map write = (first.map write <|> second.map write) := by
    cases first <;> rfl
  simp only [fields, List.mem_cons, List.not_mem_nil, or_false] at member
  rcases member with rfl | rfl | rfl | rfl | rfl | rfl | rfl | rfl | rfl | rfl | rfl
  case inr.inr.inr.inr.inr.inr.inr.inr.inr.inr => exact absurd rfl isNoSection
  all_goals exact one _ _ _

/-- A toggle of the blanks is that of the section, if there is one, or else that of the styles. -/
theorem write_spacing
    {toggle : Field SpacingSettings}
    (member : toggle ∈ SpacingSettings.fields)
    (styles : Styles) :
    toggle.write (.ofStyle (settings.applyTo styles).spacing) =
      (settings.spacing.bind toggle.write <|> toggle.write (.ofStyle styles.spacing)) := by
  unfold applyTo
  cases settings.spacing with
  | none => rfl
  | some own => exact SpacingSettings.write_applyTo member styles.spacing

/-- Outside the blanks, merged settings do what the two do one after the other. -/
theorem applyTo_mergeWith (styles : Styles) :
    (settings.mergeWith other).applyTo styles =
      { settings.applyTo (other.applyTo styles) with
        spacing := ((settings.mergeWith other).applyTo styles).spacing } := by
  simp [applyTo, mergeWith]

/-- Merging is layering for the blanks when nothing that the second file says about them is hidden. -/
theorem spacing_mergeWith_iff :
    (forall styles, ((settings.mergeWith other).applyTo styles).spacing =
      (settings.applyTo (other.applyTo styles)).spacing) ↔
      forall own hidden, settings.spacing = some own -> other.spacing = some hidden -> own.Covers hidden := by
  cases atOwn : settings.spacing with
  | none => simp [applyTo, mergeWith, atOwn]
  | some own =>
      cases atHidden : other.spacing with
      | none => simp [applyTo, mergeWith, atOwn, atHidden]
      | some hidden =>
          have merged (styles : Styles) :
              ((settings.mergeWith other).applyTo styles).spacing = own.applyTo styles.spacing := by
            simp [applyTo, mergeWith, atOwn]
          have layered (styles : Styles) : (settings.applyTo (other.applyTo styles)).spacing =
              (own.onTopOf hidden).applyTo styles.spacing := by
            simp [applyTo, atOwn, atHidden, SpacingSettings.applyTo_onTopOf]
          simp only [merged, layered]
          constructor
          · rintro same _ _ ⟨⟩ ⟨⟩
            rw [<- SpacingSettings.onTopOf_eq_self_iff]
            exact SpacingSettings.eq_of_applyTo fun style => (same { spacing := style }).symm
          · intro covers styles
            rw [SpacingSettings.onTopOf_eq_self_iff.2 (covers own hidden rfl rfl)]

end FormatterSettings

open FormatterSettings

/--
Merged settings give every setting outside the blanks as the first file has it, else as the second one, else as the
styles. A toggle of the blanks is that of the first file that has a section for them, else that of the styles. So
merging is layering exactly when the first file has no such section, or sets in it all that the second one sets.
-/
theorem mergedSettings_areLayered_iff (settings other : FormatterSettings) :
    (forall setting, setting ∈ FormatterSettings.fields -> setting.name ≠ "spaces".toList -> forall styles,
      setting.write (.ofStyles ((settings.mergeWith other).applyTo styles)) =
        (setting.write settings <|> setting.write other <|> setting.write (.ofStyles styles))) ∧
    (forall toggle, toggle ∈ SpacingSettings.fields -> forall styles,
      toggle.write (.ofStyle ((settings.mergeWith other).applyTo styles).spacing) =
        ((settings.spacing <|> other.spacing).bind toggle.write <|> toggle.write (.ofStyle styles.spacing))) ∧
    ((forall styles, (settings.mergeWith other).applyTo styles = settings.applyTo (other.applyTo styles)) ↔
      forall own hidden, settings.spacing = some own -> other.spacing = some hidden -> own.Covers hidden) := by
  refine ⟨fun setting member isNoSection styles => ?_, fun toggle member styles => ?_, ?_⟩
  · rw [write_applyTo _ member isNoSection, write_mergeWith _ _ member isNoSection]
    simp [Option.or_assoc]
  · exact write_spacing (settings.mergeWith other) member styles
  · rw [<- spacing_mergeWith_iff]
    refine forall_congr' fun styles => ⟨fun same => by rw [same], fun same => ?_⟩
    calc (settings.mergeWith other).applyTo styles
      _ = { settings.applyTo (other.applyTo styles) with
            spacing := ((settings.mergeWith other).applyTo styles).spacing } := applyTo_mergeWith settings other styles
      _ = settings.applyTo (other.applyTo styles) := by rw [same]

/-- A toggle that only the second file sets is lost when the first one says something else about blanks. -/
theorem mergedSettings_hideToggle :
    let settings : FormatterSettings := { spacing := some { aroundAssignment := some false } }
    let other : FormatterSettings := { spacing := some { afterComma := some false } }
    ((settings.mergeWith other).applyTo {}).spacing.punctuation.afterComma = true ∧
      (settings.applyTo (other.applyTo {})).spacing.punctuation.afterComma = false ∧
      ¬ forall styles, (settings.mergeWith other).applyTo styles = settings.applyTo (other.applyTo styles) := by
  intro settings other
  refine ⟨rfl, rfl, fun layered => ?_⟩
  have covers := (mergedSettings_areLayered_iff settings other).2.2.1 layered _ _ rfl rfl
  have isSet := covers _ (List.mem_of_getLast? rfl) rfl
  cases isSet

end Config
end Lossless
