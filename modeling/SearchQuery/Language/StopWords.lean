/-!
# English stop words

Words that carry no meaning of their own, as far as they have three letters or more and nothing
but letters. Shorter words and words with other characters have no derived forms anyway, so the list
leaves them out.

## Main definitions

* `englishStopWords` — the words, in alphabetical order
-/

namespace SearchQuery.Language

/-- The English stop words with at least three letters. -/
def englishStopWords : List String :=
  ["able", "ableabout", "about", "above", "abroad", "abst", "accordance", "according",
    "accordingly", "across", "act", "actually", "added", "adj", "adopted", "affected",
    "affecting", "affects", "after", "afterwards", "again", "against", "ago", "ahead", "aint",
    "all", "allow", "allows", "almost", "alone", "along", "alongside", "already", "also",
    "although", "always", "amid", "amidst", "among", "amongst", "amoungst", "amount", "and",
    "announce", "another", "any", "anybody", "anyhow", "anymore", "anyone", "anything", "anyway",
    "anyways", "anywhere", "apart", "apparently", "appear", "appreciate", "appropriate",
    "approximately", "are", "area", "areas", "aren", "arent", "arise", "around", "arpa", "aside",
    "ask", "asked", "asking", "asks", "associated", "auth", "available", "away", "awfully",
    "back", "backed", "backing", "backs", "backward", "backwards", "became", "because", "become",
    "becomes", "becoming", "been", "before", "beforehand", "began", "begin", "beginning",
    "beginnings", "begins", "behind", "being", "beings", "believe", "below", "beside", "besides",
    "best", "better", "between", "beyond", "big", "bill", "billion", "biol", "both", "bottom",
    "brief", "briefly", "but", "buy", "call", "came", "can", "cannot", "cant", "caption", "case",
    "cases", "cause", "causes", "certain", "certainly", "changes", "clear", "clearly", "click",
    "cmon", "com", "come", "comes", "computer", "con", "concerning", "consequently", "consider",
    "considering", "contain", "containing", "contains", "copy", "corresponding", "could",
    "couldn", "couldnt", "course", "cry", "currently", "dare", "darent", "date", "dear",
    "definitely", "describe", "described", "despite", "detail", "did", "didn", "didnt", "differ",
    "different", "differently", "directly", "does", "doesn", "doesnt", "doing", "don", "done",
    "dont", "doubtful", "down", "downed", "downing", "downs", "downwards", "due", "during",
    "each", "early", "edu", "effect", "eight", "eighty", "either", "eleven", "else", "elsewhere",
    "empty", "end", "ended", "ending", "ends", "enough", "entirely", "especially", "etc", "even",
    "evenly", "ever", "evermore", "every", "everybody", "everyone", "everything", "everywhere",
    "exactly", "example", "except", "face", "faces", "fact", "facts", "fairly", "far", "farther",
    "felt", "few", "fewer", "fifteen", "fifth", "fifty", "fify", "fill", "find", "finds", "fire",
    "first", "five", "fix", "followed", "following", "follows", "for", "forever", "former",
    "formerly", "forth", "forty", "forward", "found", "four", "free", "from", "front", "full",
    "fully", "further", "furthered", "furthering", "furthermore", "furthers", "gave", "general",
    "generally", "get", "gets", "getting", "give", "given", "gives", "giving", "gmt", "goes",
    "going", "gone", "good", "goods", "got", "gotten", "gov", "great", "greater", "greatest",
    "greetings", "group", "grouped", "grouping", "groups", "had", "hadnt", "half", "happens",
    "hardly", "has", "hasn", "hasnt", "have", "haven", "havent", "having", "hed", "hell",
    "hello", "help", "hence", "her", "here", "hereafter", "hereby", "herein", "heres",
    "hereupon", "hers", "herself", "hes", "hid", "high", "higher", "highest", "him", "himself",
    "his", "hither", "home", "homepage", "hopefully", "how", "howbeit", "however", "htm", "html",
    "http", "hundred", "ignored", "ill", "immediate", "immediately", "importance", "important",
    "inasmuch", "inc", "indeed", "index", "indicate", "indicated", "indicates", "information",
    "inner", "inside", "insofar", "instead", "int", "interest", "interested", "interesting",
    "interests", "into", "invention", "inward", "isn", "isnt", "itd", "itll", "its", "itself",
    "ive", "join", "just", "keep", "keeps", "kept", "keys", "kind", "knew", "know", "known",
    "knows", "large", "largely", "last", "lately", "later", "latest", "latter", "latterly",
    "least", "length", "less", "lest", "let", "lets", "like", "liked", "likely", "likewise",
    "line", "little", "long", "longer", "longest", "look", "looking", "looks", "low", "lower",
    "ltd", "made", "mainly", "make", "makes", "making", "man", "many", "may", "maybe", "maynt",
    "mean", "means", "meantime", "meanwhile", "member", "members", "men", "merely", "microsoft",
    "might", "mightnt", "mil", "mill", "million", "mine", "minus", "miss", "more", "moreover",
    "most", "mostly", "move", "mrs", "msie", "much", "mug", "must", "mustnt", "myself", "name",
    "namely", "nay", "near", "nearly", "necessarily", "necessary", "need", "needed", "needing",
    "neednt", "needs", "neither", "net", "netscape", "never", "neverf", "neverless",
    "nevertheless", "new", "newer", "newest", "next", "nine", "ninety", "nobody", "non", "none",
    "nonetheless", "noone", "nor", "normally", "nos", "not", "noted", "nothing",
    "notwithstanding", "novel", "now", "nowhere", "null", "number", "numbers", "obtain",
    "obtained", "obviously", "off", "often", "okay", "old", "older", "oldest", "omitted", "once",
    "one", "ones", "only", "onto", "open", "opened", "opening", "opens", "opposite", "ord",
    "order", "ordered", "ordering", "orders", "org", "other", "others", "otherwise", "ought",
    "oughtnt", "our", "ours", "ourselves", "out", "outside", "over", "overall", "owing", "own",
    "page", "pages", "part", "parted", "particular", "particularly", "parting", "parts", "past",
    "per", "perhaps", "place", "placed", "places", "please", "plus", "pmid", "point", "pointed",
    "pointing", "points", "poorly", "possible", "possibly", "potentially", "predominantly",
    "present", "presented", "presenting", "presents", "presumably", "previously", "primarily",
    "probably", "problem", "problems", "promptly", "proud", "provided", "provides", "put",
    "puts", "que", "quickly", "quite", "ran", "rather", "readily", "really", "reasonably",
    "recent", "recently", "ref", "refs", "regarding", "regardless", "regards", "related",
    "relatively", "research", "reserved", "respectively", "resulted", "resulting", "results",
    "right", "ring", "room", "rooms", "round", "run", "said", "same", "saw", "say", "saying",
    "says", "sec", "second", "secondly", "seconds", "section", "see", "seeing", "seem", "seemed",
    "seeming", "seems", "seen", "sees", "self", "selves", "sensible", "sent", "serious",
    "seriously", "seven", "seventy", "several", "shall", "shant", "she", "shed", "shell", "shes",
    "should", "shouldn", "shouldnt", "show", "showed", "showing", "shown", "showns", "shows",
    "side", "sides", "significant", "significantly", "similar", "similarly", "since", "sincere",
    "site", "six", "sixty", "slightly", "small", "smaller", "smallest", "some", "somebody",
    "someday", "somehow", "someone", "somethan", "something", "sometime", "sometimes",
    "somewhat", "somewhere", "soon", "sorry", "specifically", "specified", "specify",
    "specifying", "state", "states", "still", "stop", "strongly", "sub", "substantially",
    "successfully", "such", "sufficiently", "suggest", "sup", "sure", "system", "take", "taken",
    "taking", "tell", "ten", "tends", "test", "text", "than", "thank", "thanks", "thanx", "that",
    "thatll", "thats", "thatve", "the", "their", "theirs", "them", "themselves", "then",
    "thence", "there", "thereafter", "thereby", "thered", "therefore", "therein", "therell",
    "thereof", "therere", "theres", "thereto", "thereupon", "thereve", "these", "they", "theyd",
    "theyll", "theyre", "theyve", "thick", "thin", "thing", "things", "think", "thinks", "third",
    "thirty", "this", "thorough", "thoroughly", "those", "thou", "though", "thoughh", "thought",
    "thoughts", "thousand", "three", "throug", "through", "throughout", "thru", "thus", "til",
    "till", "tip", "tis", "today", "together", "too", "took", "top", "toward", "towards",
    "tried", "tries", "trillion", "truly", "try", "trying", "turn", "turned", "turning", "turns",
    "twas", "twelve", "twenty", "twice", "two", "under", "underneath", "undoing",
    "unfortunately", "unless", "unlike", "unlikely", "until", "unto", "upon", "ups", "upwards",
    "use", "used", "useful", "usefully", "usefulness", "uses", "using", "usually", "uucp",
    "value", "various", "versus", "very", "via", "viz", "vol", "vols", "want", "wanted",
    "wanting", "wants", "was", "wasn", "wasnt", "way", "ways", "web", "webpage", "website",
    "wed", "welcome", "well", "wells", "went", "were", "weren", "werent", "weve", "what",
    "whatever", "whatll", "whats", "whatve", "when", "whence", "whenever", "where", "whereafter",
    "whereas", "whereby", "wherein", "wheres", "whereupon", "wherever", "whether", "which",
    "whichever", "while", "whilst", "whim", "whither", "who", "whod", "whoever", "whole",
    "wholl", "whom", "whomever", "whos", "whose", "why", "widely", "width", "will", "willing",
    "wish", "with", "within", "without", "won", "wonder", "wont", "words", "work", "worked",
    "working", "works", "world", "would", "wouldn", "wouldnt", "www", "year", "years", "yes",
    "yet", "you", "youd", "youll", "young", "younger", "youngest", "your", "youre", "yours",
    "yourself", "yourselves", "youve", "zero"]

end SearchQuery.Language
