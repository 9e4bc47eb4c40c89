import SymbolDocs.Navigation
import SymbolDocs.Packages

/-!
# The frame of a page

What every page has around its body: the head, the drawer with the navigation, and the main part. A
single-page site packs the bodies of all pages into one, each under its path, and may list them under
an address. All three are templates that a package fills in.

* `Frame` is what all pages share, `Frame.page` a page;
* `Route` is a body under its path, `Frame.routesPage` the page that packs them;
* `sitemap` lists paths.
-/

namespace SymbolDocs

/-- A link to a document written by hand. -/
structure ExtraLink where
  /-- Its title. -/
  title : Value
  /-- Its page. -/
  href : String
  /-- Its icon. -/
  icon : Value
  deriving Inhabited

/-- Such links under a title. -/
structure ExtraLinks where
  /-- The links. -/
  items : List ExtraLink
  /-- The title. -/
  title : Value
  deriving Inhabited

/-- What all pages of a site share. -/
structure Frame where
  /-- The name of the package. -/
  packageName : String
  /-- What tells sites with different settings apart. -/
  generation : String
  /-- The file of the style sheet. -/
  stylesheet : String
  /-- Markup for the head. -/
  head : String
  /-- The documents written by hand. -/
  extra : List ExtraLinks
  /-- The pages of the graph. -/
  navigation : List NavSection

/-! ## Contexts -/

/-- The link as a template sees it. -/
def ExtraLink.toValue (link : ExtraLink) : Value :=
  .record [("title", link.title), ("href", .text link.href), ("icon", link.icon)]

/-- The links as a template sees them. -/
def ExtraLinks.toValue (links : ExtraLinks) : Value :=
  .record [("items", .list (links.items.map ExtraLink.toValue)), ("title", links.title)]

/-- The entry as a template sees it. -/
def NavItem.toValue (item : NavItem) : Value :=
  .record [("title", .text item.title), ("href", .text item.href), ("icon", .ofText? item.icon),
    ("italic", .bool item.italic)]

/-- The section as a template sees it. -/
def NavSection.toValue (s : NavSection) : Value :=
  .record [("page", s.page.toValue), ("entries", .list (s.entries.map NavItem.toValue))]

/-- The lines of a template, each with its end. -/
def templateLines (ls : List String) : String :=
  String.join (ls.map fun l => l ++ "\n")

/-! ## Pages -/

/-- The template of a page. -/
def pageTemplate : String :=
  templateLines ["<!DOCTYPE html>", "<html lang=\"en\">", "<head>", "<meta charset=\"utf-8\">",
    "<meta name=\"viewport\" content=\"width=device-width, initial-scale=1\">",
    "<meta name=\"description\" content=\"Documentation for {{ package_name }}\">",
    "<meta name=\"generator\" content=\"docgraph {{ config_hash }}\">",
    "<title>{% if title %}{{ title }} - {% endif %}{{ package_name }} API Reference</title>",
    "<link rel=\"stylesheet\" href=\"{{ stylesheet }}\">",
    "{{ head_html|safe }}", "</head>", "<body>", "<nav class=\"drawer\">",
    "<header><a href=\"index.html\">{{ package_name }}</a></header>",
    "{% for section in extra %}", "<section class=\"nav-extra\">",
    "{% if section.title %}<h6>{{ section.title }}</h6>{% endif %}",
    "{% for doc in section.items %}",
    "<a class=\"nav-item\" href=\"{{ doc.href }}\">{% if doc.icon %}" ++
      "<span class=\"icon\">{{ doc.icon }}</span>{% endif %}{{ doc.title }}</a>",
    "{% endfor %}", "</section>", "{% endfor %}", "{% for section in navigation %}",
    "<section class=\"nav-module\">",
    "<a class=\"nav-page\" href=\"{{ section.page.href }}\"><i>{{ section.page.title }}</i></a>",
    "{% for item in section.entries %}",
    "<a class=\"nav-item\" href=\"{{ item.href }}\"><span class=\"icon\">{{ item.icon }}</span>" ++
      "{% if item.italic %}<i>{{ item.title }}</i>{% else %}{{ item.title }}{% endif %}</a>",
    "{% endfor %}", "</section>", "{% endfor %}", "</nav>", "<main>", "{{ body|safe }}", "</main>",
    "</body>", "</html>"]

/-- The page that a site opens with. -/
def indexPage : String := "index.html"

/-- A body under its path. -/
structure Route where
  /-- The path. -/
  path : String
  /-- The body. -/
  body : String
  /-- Does the site open with it? -/
  isDefault : Bool

/-- The route as a template sees it. -/
def Route.toValue (route : Route) : Value :=
  .record [("path", .text route.path), ("body", .text route.body), ("default", .bool route.isDefault)]

/-- The template of the bodies of a single-page site. -/
def routesTemplate : String :=
  "{% for route in routes %}<template data-path=\"{{ route.path }}\"" ++
    "{% if route.default %} data-default{% endif %}>\n{{ route.body|safe }}\n</template>\n{% endfor %}"

/-- The template of a list of paths. -/
def sitemapTemplate : String :=
  "<?xml version=\"1.0\" encoding=\"UTF-8\"?>" ++
    "<urlset xmlns=\"http://www.sitemaps.org/schemas/sitemap/0.9\">" ++
    "{% for path in paths %}<url><loc>{{ base }}/?{{ path }}</loc></url>{% endfor %}</urlset>"

variable [Packages]

namespace Frame

/-- A page with a body and a title. -/
def page (frame : Frame) (body : String) (title : Value := .text "") : String :=
  Packages.fill pageTemplate (.record [("title", title), ("package_name", .text frame.packageName),
    ("config_hash", .text frame.generation), ("stylesheet", .text frame.stylesheet),
    ("head_html", .text frame.head), ("extra", .list (frame.extra.map ExtraLinks.toValue)),
    ("navigation", .list (frame.navigation.map NavSection.toValue)), ("body", .text body)])

/-- The page that packs bodies under their paths. -/
def routesPage (frame : Frame) (pages : List (String × String)) : String :=
  let routes := pages.map fun (path, body) => Route.toValue ⟨path, body, path = indexPage⟩
  frame.page (Packages.fill routesTemplate (.record [("routes", .list routes)]))

end Frame

/-- The paths listed under an address. -/
def sitemap (base : String) (paths : List String) : String :=
  Packages.fill sitemapTemplate (.record
    [("base", .text (Text.stripEndMarks (· == '/') base)), ("paths", .list (paths.map .text))])

end SymbolDocs
