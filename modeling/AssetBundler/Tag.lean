import AssetBundler.Text.Html

/-!
# Reference tags

The markup that a page uses to load a published asset, by content type.
-/

namespace AssetBundler

def stylesheetType : String := "text/css"

def scriptType : String := "application/javascript"

/-- An asset of any other type is answered with a comment that names its logical path. -/
def renderTag (contentType : Option String) (url logicalPath : String) : String :=
  if contentType = some stylesheetType then
    "<link rel=\"stylesheet\" type=\"text/css\" href=\"" ++ Text.escapeMarkup url ++ "\">"
  else if contentType = some scriptType then
    "<script type=\"text/javascript\" src=\"" ++ Text.escapeMarkup url ++ "\"></script>"
  else
    "<!-- assetpipe: content type for '" ++ Text.escapeMarkup logicalPath ++ "' not found -->\n"

end AssetBundler
