import SourceSurvey.Text.Lines

/-! # Comma-separated rows: a row per line, cut at every comma, with no quoting -/

namespace SourceSurvey.Csv

abbrev Row := List Text

def fields (line : Text) : Row := line.splitOn ','

def rows (text : Text) : List Row := (Text.lines text).map fields

end SourceSurvey.Csv
