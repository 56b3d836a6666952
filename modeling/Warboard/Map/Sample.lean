import Warboard.Map.Builder

namespace Warboard.MapRecord

/-- A front of five territories between two players, with Ukraine between them in nobody's hands and
bordering on both Russian territories. -/
def sample : MapRecord :=
  empty
    |>.addTerritory "Moscow" "Russians"
    |>.addTerritory "Karelia" "Russians"
    |>.addTerritory "Ukraine" neutral
    |>.addTerritory "Poland" "Germans"
    |>.addTerritory "Berlin" "Germans"
    |>.connect "Moscow" "Karelia"
    |>.connect "Karelia" "Ukraine"
    |>.connect "Moscow" "Ukraine"
    |>.connect "Ukraine" "Poland"
    |>.connect "Poland" "Berlin"
    |>.addPlayer "Russians" 10
    |>.addPlayer "Germans" 12
    |>.addUnit "infantry" 1 2 1
    |>.addUnit "artillery" 2 2 1
    |>.addUnit "armour" 3 3 2
    |>.addUnit factory 0 0 0
    |>.addUnit "aaGun" 0 1 1
    |>.addCost "infantry" 3
    |>.addCost "artillery" 4
    |>.addCost "armour" 5
    |>.placeFactory "Moscow" "Russians"
    |>.placeUnits "Moscow" "aaGun" "Russians" 1
    |>.placeUnits "Moscow" "infantry" "Russians" 3
    |>.placeUnits "Karelia" "armour" "Russians" 1
    |>.placeFactory "Berlin" "Germans"
    |>.placeUnits "Berlin" "infantry" "Germans" 2
    |>.placeUnits "Poland" "infantry" "Germans" 1
    |>.addVictoryCity "Moscow"
    |>.addVictoryCity "Berlin"

end Warboard.MapRecord
