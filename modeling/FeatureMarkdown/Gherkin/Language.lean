import FeatureMarkdown.Text.Basic

/-!
The keywords of feature files in the languages that a file can ask for. Where two words of a list
both fit, the first one counts. The keyword of a step includes the space after it.
-/

namespace FeatureMarkdown.Gherkin

structure Language where
  feature : List Text
  background : List Text
  rule : List Text
  scenario : List Text
  scenarioOutline : List Text
  examples : List Text
  givenWords : List Text
  whenWords : List Text
  thenWords : List Text
  andWords : List Text
  butWords : List Text

namespace Language

def words : List String → List Text :=
  List.map String.toList

def english : Language where
  feature := words ["Feature", "Business Need", "Ability"]
  background := words ["Background"]
  rule := words ["Rule"]
  scenario := words ["Example", "Scenario"]
  scenarioOutline := words ["Scenario Outline", "Scenario Template"]
  examples := words ["Examples", "Scenarios"]
  givenWords := words ["* ", "Given "]
  whenWords := words ["* ", "When "]
  thenWords := words ["* ", "Then "]
  andWords := words ["* ", "And "]
  butWords := words ["* ", "But "]

def french : Language where
  feature := words ["Fonctionnalité"]
  background := words ["Contexte"]
  rule := words ["Règle"]
  scenario := words ["Exemple", "Scénario"]
  scenarioOutline := words ["Plan du scénario", "Plan du Scénario"]
  examples := words ["Exemples"]
  givenWords := words
    ["* ", "Soit ", "Sachant que ", "Sachant qu'", "Sachant ", "Etant donné que ",
      "Etant donné qu'", "Etant donné ", "Etant donnée ", "Etant donnés ", "Etant données ",
      "Étant donné que ", "Étant donné qu'", "Étant donné ", "Étant donnée ", "Étant donnés ",
      "Étant données "]
  whenWords := words ["* ", "Quand ", "Lorsque ", "Lorsqu'"]
  thenWords := words ["* ", "Alors ", "Donc "]
  andWords := words ["* ", "Et que ", "Et qu'", "Et "]
  butWords := words ["* ", "Mais que ", "Mais qu'", "Mais "]

def german : Language where
  feature := words ["Funktionalität", "Funktion"]
  background := words ["Grundlage", "Hintergrund", "Voraussetzungen", "Vorbedingungen"]
  rule := words ["Rule", "Regel"]
  scenario := words ["Beispiel", "Szenario"]
  scenarioOutline := words ["Szenariogrundriss", "Szenarien"]
  examples := words ["Beispiele"]
  givenWords := words ["* ", "Angenommen ", "Gegeben sei ", "Gegeben seien "]
  whenWords := words ["* ", "Wenn "]
  thenWords := words ["* ", "Dann "]
  andWords := words ["* ", "Und "]
  butWords := words ["* ", "Aber "]

def japanese : Language where
  feature := words ["フィーチャ", "機能"]
  background := words ["背景"]
  rule := words ["Rule"]
  scenario := words ["シナリオ"]
  scenarioOutline := words ["シナリオアウトライン", "シナリオテンプレート", "テンプレ", "シナリオテンプレ"]
  examples := words ["例", "サンプル"]
  givenWords := words ["* ", "前提"]
  whenWords := words ["* ", "もし"]
  thenWords := words ["* ", "ならば"]
  andWords := words ["* ", "かつ"]
  butWords := words ["* ", "しかし", "但し", "ただし"]

def russian : Language where
  feature := words ["Функция", "Функциональность", "Функционал", "Свойство"]
  background := words ["Предыстория", "Контекст"]
  rule := words ["Правило"]
  scenario := words ["Пример", "Сценарий"]
  scenarioOutline := words ["Структура сценария", "Шаблон сценария"]
  examples := words ["Примеры"]
  givenWords := words ["* ", "Допустим ", "Дано ", "Пусть "]
  whenWords := words ["* ", "Когда ", "Если "]
  thenWords := words ["* ", "То ", "Затем ", "Тогда "]
  andWords := words ["* ", "И ", "К тому же ", "Также "]
  butWords := words ["* ", "Но ", "А ", "Иначе "]

def chinese : Language where
  feature := words ["功能"]
  background := words ["背景"]
  rule := words ["Rule"]
  scenario := words ["场景", "剧本"]
  scenarioOutline := words ["场景大纲", "剧本大纲"]
  examples := words ["例子"]
  givenWords := words ["* ", "假如", "假设", "假定"]
  whenWords := words ["* ", "当"]
  thenWords := words ["* ", "那么"]
  andWords := words ["* ", "而且", "并且", "同时"]
  butWords := words ["* ", "但是"]

def lolcat : Language where
  feature := words ["OH HAI"]
  background := words ["B4"]
  rule := words ["Rule"]
  scenario := words ["MISHUN"]
  scenarioOutline := words ["MISHUN SRSLY"]
  examples := words ["EXAMPLZ"]
  givenWords := words ["* ", "I CAN HAZ "]
  whenWords := words ["* ", "WEN "]
  thenWords := words ["* ", "DEN "]
  andWords := words ["* ", "AN "]
  butWords := words ["* ", "BUT "]

def formal : Language where
  feature := words ["Section"]
  background := words ["Context"]
  rule := words ["Rule"]
  scenario := words ["Proof", "Evidence"]
  scenarioOutline := words ["Demonstration"]
  examples := words ["Examples"]
  givenWords := words ["Given"]
  whenWords := words ["When"]
  thenWords := words ["Then"]
  andWords := words ["*", "And"]
  butWords := words ["But"]

/-- The language of a code. Of the languages of Gherkin these eight are here; any other code is
taken for one that there is not. -/
def ofCode? (code : Text) : Option Language :=
  if code = "en".toList then some english
  else if code = "fr".toList then some french
  else if code = "de".toList then some german
  else if code = "ja".toList then some japanese
  else if code = "ru".toList then some russian
  else if code = "zh-CN".toList then some chinese
  else if code = "en-lol".toList then some lolcat
  else if code = "formal".toList then some formal
  else none

/-- The words that begin a scenario, an outline or a step. They end a description. -/
def scenarioEnds (language : Language) : List Text :=
  language.scenario ++ language.scenarioOutline ++ language.givenWords ++ language.whenWords ++
    language.thenWords ++ language.andWords ++ language.butWords

def ruleEnds (language : Language) : List Text :=
  language.background ++ language.scenario ++ language.scenarioOutline

def featureEnds (language : Language) : List Text :=
  language.background ++ language.rule ++ language.scenario ++ language.scenarioOutline

end Language

end FeatureMarkdown.Gherkin
